import QueryPipeline.Expr

/-!
# Callbacks of a traversal

A compiler sees an expression as a sequence of callbacks: an operator node is announced before its
operands, between the two operands of a binary node, and after its operands; a leaf is announced
once.

## Main definitions

- `Callback`: one announcement.
- `Expr.trace`: the callbacks of an expression, in order.
- `Expr.walk`: the traversal that makes them in any monad, so that a failure ends it.
-/

namespace QueryPipeline

/-- One announcement of a traversal. -/
inductive Callback where
  /-- Before the operands of a node. -/
  | enter (construct : Construct)
  /-- Between the left and the right operand of a binary node. -/
  | between (construct : Construct)
  /-- After the operands of a node. -/
  | leave (construct : Construct)
  | column (c : Column)
  | variable (v : Variable)
  | literal (value : Value) (type : AttributeType)
deriving Repr, DecidableEq

/-- Whether a callback announces a leaf. -/
def Callback.isLeaf : Callback → Bool
  | column _ => true
  | .variable _ => true
  | literal _ _ => true
  | _ => false

namespace Expr

/-! ## §1 The trace of an expression -/

mutual

/-- The callbacks of an expression, in order. -/
def trace : Expr → List Callback
  | .and l r => .enter .and :: l.trace ++ .between .and :: r.trace ++ [.leave .and]
  | .or l r => .enter .or :: l.trace ++ .between .or :: r.trace ++ [.leave .or]
  | .not e => .enter .not :: e.trace ++ [.leave .not]
  | .compare op l r =>
    .enter (.compare op) :: l.trace ++ .between (.compare op) :: r.trace ++ [.leave (.compare op)]
  | .isNull e => .enter .isNull :: e.trace ++ [.leave .isNull]
  | .member e s => .enter (.member s) :: e.trace ++ [.leave (.member s)]
  | .arithmetic op l r =>
    .enter (.arithmetic op) :: l.trace ++ .between (.arithmetic op) :: r.trace
      ++ [.leave (.arithmetic op)]
  | .call f args => .enter (.call f) :: traceAll args ++ [.leave (.call f)]
  | .column c => [.column c]
  | .variable v => [.variable v]
  | .constant v ty => [.literal v ty]

/-- The callbacks of the arguments of a call, one argument after the other. -/
def traceAll : List Expr → List Callback
  | [] => []
  | e :: rest => e.trace ++ traceAll rest

end

/-! ## §2 The traversal -/

variable {m : Type → Type} [Monad m]

/-- The callbacks around one group of operands. -/
def around (visit : Callback → m Unit) (c : Construct) (operands : m Unit) : m Unit := do
  visit (.enter c)
  operands
  visit (.leave c)

/-- The callbacks around and between two operands. -/
def aroundTwo (visit : Callback → m Unit) (c : Construct) (left right : m Unit) : m Unit :=
  around visit c do
    left
    visit (.between c)
    right

mutual

/-- Make the callbacks of an expression. -/
def walk (visit : Callback → m Unit) : Expr → m Unit
  | .and l r => aroundTwo visit .and (walk visit l) (walk visit r)
  | .or l r => aroundTwo visit .or (walk visit l) (walk visit r)
  | .not e => around visit .not (walk visit e)
  | .compare op l r => aroundTwo visit (.compare op) (walk visit l) (walk visit r)
  | .isNull e => around visit .isNull (walk visit e)
  | .member e s => around visit (.member s) (walk visit e)
  | .arithmetic op l r => aroundTwo visit (.arithmetic op) (walk visit l) (walk visit r)
  | .call f args => around visit (.call f) (walkAll visit args)
  | .column c => visit (.column c)
  | .variable v => visit (.variable v)
  | .constant v ty => visit (.literal v ty)

/-- Make the callbacks of the arguments of a call. -/
def walkAll (visit : Callback → m Unit) : List Expr → m Unit
  | [] => pure ()
  | e :: rest => do
    walk visit e
    walkAll visit rest

end

end Expr

end QueryPipeline
