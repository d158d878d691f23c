import QueryPipeline.Callback
import QueryPipeline.Operand
import QueryPipeline.Run

/-!
# Projections

The compiler of SELECT lists and of grouping and ordering keys.  An output is a column, a constant, a
masked variable, or an aggregate over one of these.  Constants are written at once, and variables are
masked, for the store never sees the values of an invocation.

## Main definitions

- `Projection`, `Projection.render`, `Projection.column?`.
- `ProjectionCompiler.visit`, `ProjectionCompiler.finish`.
- `compileProjection`, `compileKey`: a whole expression compiled.
-/

namespace QueryPipeline

/-- A compiled output of a query. -/
inductive Projection where
  | column (field : String)
  /-- The text of a constant. -/
  | constant (text : String)
  /-- A variable, whose value is not shown. -/
  | masked
  | aggregate (function : Aggregate) (argument : Projection)
deriving Repr, DecidableEq

namespace Projection

/-- The text shown in place of a variable. -/
def maskText : String := "'?'"

def render : Projection → String
  | column field => fieldPath field
  | constant text => singleton "$literal" text
  | masked => singleton "$literal" maskText
  | aggregate f argument => singleton f.operator argument.render

def isAggregate : Projection → Bool
  | aggregate _ _ => true
  | _ => false

/-- The field of a bare column. -/
def column? : Projection → Option String
  | column field => some field
  | _ => none

end Projection

structure ProjectionCompiler where
  stack : OperandStack Projection := {}
  /-- Aggregates entered and not left, innermost first, each with the stack size it began at. -/
  calls : List (Aggregate × Nat) := []

namespace ProjectionCompiler

def push (p : Projection) : Run ProjectionCompiler Unit :=
  modify fun s => { s with stack := s.stack.push p }

/-- Open a call of an aggregate. -/
def openCall (f : FunctionName) : Run ProjectionCompiler Unit := do
  match Aggregate.ofFunction? f with
  | none => throw (.unsupportedFunction (.unknown f))
  | some function =>
    let s ← get
    match s.calls with
    -- an aggregate of an aggregate is refused where the inner one is entered
    | (outer, _) :: _ => throw (.unsupportedFunction (.nested function outer))
    | [] => set { s with calls := [(function, s.stack.size)] }

/-- Close the innermost call over the operands that came since it was opened. -/
def closeCall (f : FunctionName) : Run ProjectionCompiler Unit := do
  let s ← get
  match s.calls with
  | [] => throw (.internal (.exitWithoutEnter f))
  | (function, depth) :: calls =>
    -- the call counts as closed even if its operands turn out wrong
    set { s with calls }
    let (args, stack) ← Run.internal (s.stack.splitOff depth)
    set { s with calls, stack }
    match args with
    | [argument] => push (.aggregate function argument)
    | args => throw (.unsupportedFunction (.arity function args.length))

def visit : Callback → Run ProjectionCompiler Unit
  | .enter (.call f) => openCall f
  | .enter c => throw (.unsupportedOperation (.inProjection c))
  | .between _ => pure ()
  | .leave (.call f) => closeCall f
  | .leave _ => pure ()
  | .column c => push (.column c.field)
  | .variable _ => push .masked
  | .literal value type => push (.constant (value.renderAs type))

/-- The finished projection: every call is closed and one projection is left. -/
def finish (s : ProjectionCompiler) : Except CompileError Projection :=
  if s.calls.isEmpty then s.stack.root.mapError .internal
  else .error (.internal (.callsLeftOpen s.calls.length))

end ProjectionCompiler

/-- A SELECT expression compiled. -/
def compileProjection (e : Expr) : Except CompileError Projection :=
  match (e.walk ProjectionCompiler.visit).exec {} with
  | (.ok (), s) => s.finish
  | (.error err, _) => .error err

/-- A grouping or ordering key compiled: it must be a bare column. -/
def compileKey (e : Expr) : Except CompileError String := do
  match ← compileProjection e with
  | .column field => return field
  | other => throw (.unsupportedOperation (.keyNotColumn other.render))

end QueryPipeline
