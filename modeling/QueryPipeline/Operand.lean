import QueryPipeline.DocumentText
import QueryPipeline.Error

/-!
# Operands

Compilers build their output on a stack of operands.  A condition on one field keeps its predicate
apart from its field, so that it can still be negated; a condition on several fields is text.

## Main definitions

- `Condition`, `Condition.negate?`, `Condition.render`.
- `Operand`: what stands on the stack of a condition compiler.
- `OperandStack`: a stack whose failing operations leave it as it was.
-/

namespace QueryPipeline

/-! ## §1 Conditions -/

/-- A compiled condition. -/
inductive Condition where
  /-- A predicate on one field, perhaps negated. -/
  | field (field predicate : String) (negated : Bool)
  /-- A finished condition on several fields. -/
  | compound (text : String)
deriving Repr, DecidableEq

namespace Condition

/-- The negation of a condition on one field; there is none for several fields. -/
def negate? : Condition → Option Condition
  | field f p n => some (field f p (!n))
  | compound _ => none

def render : Condition → String
  | field f p negated => singleton f (if negated then singleton "$not" p else p)
  | compound text => text

end Condition

/-! ## §2 Operands and their stack -/

/-- What stands on the stack of a condition compiler. -/
inductive Operand where
  | column (field : String)
  /-- The placeholder of a variable. -/
  | variable (name : String)
  /-- The placeholder of a literal. -/
  | literal (name : String)
  | condition (c : Condition)
deriving Repr, DecidableEq

/-- What an operand is. -/
def Operand.kind : Operand → OperandKind
  | column _ => .column
  | .variable _ => .variable
  | literal _ => .literal
  | condition _ => .condition

/-- A stack of operands. -/
structure OperandStack (α : Type) where
  /-- The operands, top first. -/
  items : List α := []
deriving Repr, DecidableEq

namespace OperandStack

variable {α : Type}

def size (s : OperandStack α) : Nat :=
  s.items.length

def push (s : OperandStack α) (a : α) : OperandStack α :=
  ⟨a :: s.items⟩

/-- The top operand, and the stack below it. -/
def pop (s : OperandStack α) : Except InternalFault (α × OperandStack α) :=
  match s.items with
  | a :: rest => .ok (a, ⟨rest⟩)
  | [] => .error .stackEmpty

@[simp] theorem size_push (s : OperandStack α) (a : α) : (s.push a).size = s.size + 1 :=
  rfl

@[simp] theorem pop_push (s : OperandStack α) (a : α) : (s.push a).pop = .ok (a, s) :=
  rfl

/-- The left and the right operand of a binary node, and the stack below them. -/
def popPair (s : OperandStack α) : Except InternalFault ((α × α) × OperandStack α) :=
  match s.items with
  | right :: left :: rest => .ok ((left, right), ⟨rest⟩)
  | short => .error (.stackShort short.length)

@[simp] theorem popPair_push_push (s : OperandStack α) (left right : α) :
    ((s.push left).push right).popPair = .ok ((left, right), s) :=
  rfl

/-- The operands above a depth, bottom first, and the stack up to that depth. -/
def splitOff (s : OperandStack α) (depth : Nat) :
    Except InternalFault (List α × OperandStack α) :=
  if depth ≤ s.size then
    .ok ((s.items.take (s.size - depth)).reverse, ⟨s.items.drop (s.size - depth)⟩)
  else
    .error (.stackShrank depth s.size)

/-- The only operand. -/
def root (s : OperandStack α) : Except InternalFault α :=
  match s.items with
  | [a] => .ok a
  | [] => .error .noRoot
  | several => .error (.severalRoots several.length)

end OperandStack

end QueryPipeline
