import QueryPipeline.Proofs.Filter.Direct
import QueryPipeline.Proofs.Refusal

/-!
# The outline of a filter

Whether an expression compiles, and the error if it does not, does not depend on the texts that are
built on the way: not on the names of placeholders, and not on the field that holds object
identifiers.  `outline` compiles an expression to the shape of its operand alone.

## Main definitions

- `Shape`: what an operand is, and for a condition whether it can be negated.
- `FilterCompiler.outline`: the shape of what an expression compiles to.

## Main statements

- `FilterCompiler.direct_outlines`: the compilation keeps to the outline, whatever has been numbered
  before.
- `FilterCompiler.sameErrors_compile`: a clause fails alike wherever its numbering starts.
-/

namespace QueryPipeline

/-! ## §1 Shapes -/

/-- What an operand is without its text. -/
inductive Shape where
  | column
  | variable
  | literal
  /-- A condition on one field, which can be negated. -/
  | field
  | compound
deriving Repr, DecidableEq

def Shape.kind : Shape → OperandKind
  | column => .column
  | .variable => .variable
  | literal => .literal
  | field | compound => .condition

def Operand.shape : Operand → Shape
  | .column _ => .column
  | .variable _ => .variable
  | .literal _ => .literal
  | .condition (.field _ _ _) => .field
  | .condition (.compound _) => .compound

namespace FilterCompiler

/-- A junction needs two conditions. -/
def joinedShape (j : Junction) : Shape → Shape → Except CompileError Shape
  | .field, .field | .field, .compound | .compound, .field | .compound, .compound => .ok .compound
  | left, right => .error (.unsupportedComposition (.notTwoConditions j left.kind right.kind))

/-- A negation needs a condition on one field. -/
def negatedShape : Shape → Except CompileError Shape
  | .field => .ok .field
  | .compound => .error (.unsupportedComposition .negatedCompound)
  | other => .error (.unsupportedComposition (.negatedOperand other.kind))

/-- A null check needs a column. -/
def nullCheckedShape : Shape → Except CompileError Shape
  | .column => .ok .field
  | other => .error (.unsupportedNullCheck other.kind)

/-- A comparison needs a column and a placeholder. -/
def comparedShape (op : CompareOp) : Shape → Shape → Except CompileError Shape
  | .column, .variable | .column, .literal | .variable, .column | .literal, .column => .ok .field
  | left, right => .error (.unsupportedComparison op left.kind right.kind)

/-- Only a condition can stand alone. -/
def standing : Shape → Except CompileError Unit
  | .field | .compound => .ok ()
  | other => .error (.unsupportedComposition (.bareRoot other.kind))

/-- The shape of what an expression compiles to. -/
def outline (clause : FilterClause) : Expr → Except CompileError Shape
  | .column _ => .ok .column
  | .variable _ => .ok .variable
  | .constant _ _ => .ok .literal
  | .and l r => do joinedShape .and (← outline clause l) (← outline clause r)
  | .or l r => do joinedShape .or (← outline clause l) (← outline clause r)
  | .not e => do negatedShape (← outline clause e)
  | .compare op l r => do comparedShape op (← outline clause l) (← outline clause r)
  | .isNull e =>
    match clause with
    | .having => .error (.unsupportedInHaving .isNull)
    | .matching => do nullCheckedShape (← outline clause e)
  | .member _ source => .error (.unsupportedOperation (.inFilter (.member source)))
  | .arithmetic op _ _ => .error (.unsupportedOperation (.inFilter (.arithmetic op)))
  | .call f _ => .error (.unsupportedFunction (.unknown f))

/-! ## §2 The compilation keeps to the outline -/

/-- A compilation has the shapes and the errors of an outline. -/
def Outlines (result : Except CompileError (Operand × Progress)) (o : Except CompileError Shape) :
    Prop :=
  result.map (fun r => r.1.shape) = o

theorem Outlines.bind {result : Except CompileError (Operand × Progress)}
    {o : Except CompileError Shape}
    {next : Operand × Progress → Except CompileError (Operand × Progress)}
    {next' : Shape → Except CompileError Shape} (h : Outlines result o)
    (hnext : ∀ r, Outlines (next r) (next' r.1.shape)) :
    Outlines (result >>= next) (o >>= next') := by
  unfold Outlines at h
  cases result with
  | error err =>
    subst h
    rfl
  | ok r =>
    subst h
    exact hnext r

theorem outlines_joined (j : Junction) (left right : Operand) (p : Progress) :
    Outlines (do return (← joined j left right, p)) (joinedShape j left.shape right.shape) := by
  rcases left with _ | _ | _ | (_ | _) <;> rcases right with _ | _ | _ | (_ | _) <;> rfl

theorem outlines_negated (o : Operand) (p : Progress) :
    Outlines (do return (← negated o, p)) (negatedShape o.shape) := by
  rcases o with _ | _ | _ | (_ | _) <;> rfl

theorem outlines_nullChecked (o : Operand) (p : Progress) :
    Outlines (do return (← nullChecked o, p)) (nullCheckedShape o.shape) := by
  rcases o with _ | _ | _ | (_ | _) <;> rfl

theorem outlines_compared (idField : String) (op : CompareOp) (left right : Operand)
    (p : Progress) :
    Outlines (do
      let (condition, mirrored) ← compared idField op left right
      return (condition, { p with lastMirrored := mirrored }))
      (comparedShape op left.shape right.shape) := by
  rcases left with _ | _ | _ | (_ | _) <;> rcases right with _ | _ | _ | (_ | _) <;> rfl

/-- **The compilation keeps to the outline**, whatever has been numbered before. -/
theorem direct_outlines (clause : FilterClause) (idField : String) (e : Expr) (p : Progress) :
    Outlines (direct clause idField e p) (outline clause e) := by
  induction e generalizing p with
  | and l r ihl ihr =>
    unfold direct outline
    exact (ihl p).bind fun left => (ihr left.2).bind fun right =>
      outlines_joined .and left.1 right.1 right.2
  | or l r ihl ihr =>
    unfold direct outline
    exact (ihl p).bind fun left => (ihr left.2).bind fun right =>
      outlines_joined .or left.1 right.1 right.2
  | not e ih =>
    unfold direct outline
    exact (ih p).bind fun operand => outlines_negated operand.1 operand.2
  | compare op l r ihl ihr =>
    unfold direct outline
    exact (ihl p).bind fun left => (ihr left.2).bind fun right =>
      outlines_compared idField op left.1 right.1 right.2
  | isNull e ih =>
    unfold direct outline
    cases clause with
    | having => rfl
    | matching => exact (ih p).bind fun operand => outlines_nullChecked operand.1 operand.2
  -- these have no operands that are compiled
  | member e source => rfl
  | arithmetic op l r => rfl
  | call f args => rfl
  | column c => rfl
  | var v => rfl
  | constant value type => rfl

/-! ## §3 Whole clauses -/

theorem finished_standing (o : Operand) (p : Progress) :
    (finished o p).map (fun _ => ()) = standing o.shape := by
  rcases o with _ | _ | _ | (_ | _) <;> rfl

/-- Whether a clause compiles, and how it fails, can be read off its outline. -/
theorem compile_outlines (config : Config) (clause : FilterClause) (sequence : Sequence)
    (e : Expr) :
    ((start config clause sequence).compile e).map (fun _ => ()) =
      outline clause e >>= standing := by
  have houtline := direct_outlines clause config.idField e ⟨.startingAt sequence, false⟩
  rw [compile_start_eq, ← houtline]
  cases direct clause config.idField e ⟨.startingAt sequence, false⟩ with
  | error err => rfl
  | ok r => exact finished_standing r.1 r.2

/-- **A clause fails alike** wherever its numbering starts. -/
theorem sameErrors_compile (config : Config) (clause : FilterClause) (s s' : Sequence) (e : Expr) :
    SameErrors ((start config clause s).compile e) ((start config clause s').compile e) := by
  apply SameErrors.of_map_eq
  rw [compile_outlines, compile_outlines]

end FilterCompiler

end QueryPipeline
