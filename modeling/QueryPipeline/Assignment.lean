import QueryPipeline.Callback
import QueryPipeline.Operand
import QueryPipeline.Placeholder.Resolver

/-!
# Assigned values

The compiler of the value side of a SET assignment.  Only a column, a variable or a constant may
stand there; every operator is refused where it is entered.
-/

namespace QueryPipeline

structure AssignmentCompiler where
  stack : OperandStack Operand := {}
  table : PlaceholderTable := {}

namespace AssignmentCompiler

/-- A compiler before the first callback. -/
def start (sequence : Sequence) : AssignmentCompiler :=
  { table := .startingAt sequence }

def visit : Callback → Run AssignmentCompiler Unit
  | .enter c => throw (.unsupportedInSetClause c)
  | .between _ => pure ()
  | .leave _ => pure ()
  | .column c => modify fun s => { s with stack := s.stack.push (.column c.field) }
  | .variable v => modify fun s =>
    let (name, table) := s.table.allocateVariable v
    { table, stack := s.stack.push (.variable name) }
  | .literal value type => modify fun s =>
    let (name, table) := s.table.allocateLiteral value type
    { table, stack := s.stack.push (.literal name) }

/-- The text of an assigned operand. -/
def operandText : Operand → Except CompileError String
  | .column field => .ok (fieldPath field)
  | .variable name => .ok name
  | .literal name => .ok name
  | .condition _ => .error (.internal .conditionAssigned)

def finish (s : AssignmentCompiler) : Except CompileError CompiledFragment := do
  let text ← operandText (← s.stack.root.mapError .internal)
  let (fragment, placeholders) := s.table.finalize text
  return { fragment, placeholders, sequence := s.table.sequence, mirrored := false }

def compile (s : AssignmentCompiler) (e : Expr) : Except CompileError CompiledFragment :=
  match (e.walk visit).exec s with
  | (.ok (), s) => s.finish
  | (.error err, _) => .error err

end AssignmentCompiler

/-- An assigned value compiled, with placeholders numbered from `sequence`. -/
def compileAssignment (sequence : Sequence) (e : Expr) :
    Except CompileError CompiledFragment :=
  (AssignmentCompiler.start sequence).compile e

end QueryPipeline
