import QueryPipeline.Callback
import QueryPipeline.Config
import QueryPipeline.Operand
import QueryPipeline.Placeholder.Resolver

/-!
# Filter conditions

The compiler of WHERE and HAVING clauses.  It accepts comparisons of a column with a variable or a
constant in either order, null checks on a column, junctions of conditions, and negations of
conditions on one field.  Memberships, arithmetic and calls are refused where they are entered, and
so are null checks in a HAVING clause.

## Main definitions

- `FilterCompiler`: the state of the compiler.
- `FilterCompiler.visit`: what each callback does to it.
- `FilterCompiler.finish`: the finished clause.
- `compileFilter`, `compileHaving`: a whole expression compiled.
-/

namespace QueryPipeline

/-- The clauses that hold filter conditions. -/
inductive FilterClause where
  | matching
  | having
deriving Repr, DecidableEq

structure FilterCompiler where
  clause : FilterClause
  /-- Comparisons on this field go through object identifiers. -/
  idField : String
  stack : OperandStack Operand := {}
  table : PlaceholderTable := {}
  /-- Whether the latest comparison had its column on the right. -/
  lastMirrored : Bool := false

namespace FilterCompiler

/-- A compiler before the first callback. -/
def start (config : Config) (clause : FilterClause) (sequence : Sequence) : FilterCompiler :=
  { clause, idField := config.idField, table := .startingAt sequence }

/-! ## §1 Operands -/

def push (o : Operand) : Run FilterCompiler Unit :=
  modify fun s => { s with stack := s.stack.push o }

def pop : Run FilterCompiler Operand := do
  let s ← get
  let (o, stack) ← Run.internal s.stack.pop
  set { s with stack }
  return o

/-- Take the left and the right operand of a binary node. -/
def popPair : Run FilterCompiler (Operand × Operand) := do
  let s ← get
  let (pair, stack) ← Run.internal s.stack.popPair
  set { s with stack }
  return pair

/-! ## §2 Leaving a node -/

/-- The document of a junction of two conditions. -/
def junction (j : Junction) (left right : Condition) : String :=
  singleton j.document ("[" ++ left.render ++ ", " ++ right.render ++ "]")

/-- Join the two conditions on top. -/
def join (j : Junction) : Run FilterCompiler Unit := do
  match ← popPair with
  | (.condition left, .condition right) => push (.condition (.compound (junction j left right)))
  | (left, right) =>
    throw (.unsupportedComposition (.notTwoConditions j left.kind right.kind))

/-- Negate the condition on top. -/
def negate : Run FilterCompiler Unit := do
  match ← pop with
  | .condition c =>
    match c.negate? with
    | some negated => push (.condition negated)
    | none => throw (.unsupportedComposition .negatedCompound)
  | other => throw (.unsupportedComposition (.negatedOperand other.kind))

/-- The predicate of a comparison.  A comparison with the identifier field wraps its value. -/
def predicate (idField field : String) (op : CompareOp) (value : String) : String :=
  singleton op.document (if field = idField then singleton "$oid" value else value)

/-- A comparison with its column brought to the left. -/
structure Sides where
  field : String
  op : CompareOp
  value : String
  /-- Whether the column stood on the right. -/
  mirrored : Bool
deriving Repr, DecidableEq

/-- The sides of a comparison of a column with a placeholder, in either order. -/
def sides? (op : CompareOp) : Operand → Operand → Option Sides
  | .column field, .variable value => some ⟨field, op, value, false⟩
  | .column field, .literal value => some ⟨field, op, value, false⟩
  | .variable value, .column field => some ⟨field, op.mirrored, value, true⟩
  | .literal value, .column field => some ⟨field, op.mirrored, value, true⟩
  | _, _ => none

/-- Compare the two operands on top. -/
def compare (op : CompareOp) : Run FilterCompiler Unit := do
  let (left, right) ← popPair
  match sides? op left right with
  | none => throw (.unsupportedComparison op left.kind right.kind)
  | some c =>
    modify fun s =>
      { s with
        lastMirrored := c.mirrored
        stack := s.stack.push
          (.condition (.field c.field (predicate s.idField c.field c.op c.value) false)) }

/-- Check the column on top for null. -/
def checkNull : Run FilterCompiler Unit := do
  match ← pop with
  | .column field => push (.condition (.field field (singleton "$eq" "null") false))
  | other => throw (.unsupportedNullCheck other.kind)

/-! ## §3 Callbacks -/

/-- What is refused where it is entered. -/
def enter : Construct → Run FilterCompiler Unit
  | .isNull => do
    if (← get).clause = .having then throw (.unsupportedInHaving .isNull)
  | .member source => throw (.unsupportedOperation (.inFilter (.member source)))
  | .arithmetic op => throw (.unsupportedOperation (.inFilter (.arithmetic op)))
  | .call f => throw (.unsupportedFunction (.unknown f))
  -- the others are judged by their operands, when they are left
  | _ => pure ()

/-- What is built where it is left. -/
def leave : Construct → Run FilterCompiler Unit
  | .and => join .and
  | .or => join .or
  | .not => negate
  | .compare op => compare op
  | .isNull => checkNull
  | _ => pure ()

/-- A variable becomes a fresh placeholder. -/
def pushVariable (v : Variable) : Run FilterCompiler Unit :=
  modify fun s =>
    let (name, table) := s.table.allocateVariable v
    { s with table, stack := s.stack.push (.variable name) }

/-- A literal becomes a fresh placeholder. -/
def pushLiteral (value : Value) (type : AttributeType) : Run FilterCompiler Unit :=
  modify fun s =>
    let (name, table) := s.table.allocateLiteral value type
    { s with table, stack := s.stack.push (.literal name) }

def visit : Callback → Run FilterCompiler Unit
  | .enter c => enter c
  | .between _ => pure ()
  | .leave c => leave c
  | .column c => push (.column c.field)
  | .variable v => pushVariable v
  | .literal value type => pushLiteral value type

/-- The finished clause: the only operand left must be a condition. -/
def finish (s : FilterCompiler) : Except CompileError CompiledFragment := do
  match ← s.stack.root.mapError .internal with
  | .condition c =>
    let (fragment, placeholders) := s.table.finalize c.render
    -- a junction has no sides of its own
    let mirrored := match c with
      | .field _ _ _ => s.lastMirrored
      | .compound _ => false
    return { fragment, placeholders, sequence := s.table.sequence, mirrored }
  | other => throw (.unsupportedComposition (.bareRoot other.kind))

def compile (s : FilterCompiler) (e : Expr) : Except CompileError CompiledFragment :=
  match (e.walk visit).exec s with
  | (.ok (), s) => s.finish
  | (.error err, _) => .error err

end FilterCompiler

/-- A WHERE condition compiled, with placeholders numbered from `sequence`. -/
def compileFilter (config : Config) (sequence : Sequence) (e : Expr) :
    Except CompileError CompiledFragment :=
  (FilterCompiler.start config .matching sequence).compile e

/-- A HAVING condition compiled, with placeholders numbered from `sequence`. -/
def compileHaving (config : Config) (sequence : Sequence) (e : Expr) :
    Except CompileError CompiledFragment :=
  (FilterCompiler.start config .having sequence).compile e

end QueryPipeline
