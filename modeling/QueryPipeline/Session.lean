import QueryPipeline.Assembly
import QueryPipeline.Assignment
import QueryPipeline.Filter

/-!
# Queries and sessions

A `Query` holds the clauses of a query as expressions.  A `Session` compiles one clause, query or
update after the other and never gives out a placeholder twice: each clause that is compiled moves
the numbering on, also when a later clause of the same query fails.

## Main definitions

- `Query`: the clauses of a query.
- `Session`: configuration and numbering.
- `Session.filter`, `Session.having`, `Session.assignment`: one clause.
- `Session.query`, `Session.update`: all clauses of a query, all assignments of an update.
-/

namespace QueryPipeline

/-! ## §1 Queries -/

structure SelectItem where
  name : String
  expression : Expr
deriving Repr

structure OrderItem where
  expression : Expr
  order : SortOrder := .asc
deriving Repr

structure Query where
  filter : Option Expr := none
  select : List SelectItem := []
  groupBy : List Expr := []
  having : Option Expr := none
  orderBy : List OrderItem := []
  limit : Option UInt64 := none
  offset : Option UInt64 := none
deriving Repr

/-! ## §2 Sessions -/

/-- A configuration, and where the numbering of placeholders has come to. -/
structure Session where
  config : Config := {}
  sequence : Sequence := {}
deriving Repr, DecidableEq

namespace Session

/-- A finished clause moves the numbering on. -/
def advance (r : Except CompileError CompiledFragment) : Run Session CompiledFragment := do
  let compiled ← Run.lift r
  modify fun s => { s with sequence := compiled.sequence }
  return compiled

def filter (e : Expr) : Run Session CompiledFragment := do
  let s ← get
  advance (compileFilter s.config s.sequence e)

def having (e : Expr) : Run Session CompiledFragment := do
  let s ← get
  advance (compileHaving s.config s.sequence e)

def assignment (e : Expr) : Run Session CompiledFragment := do
  let s ← get
  advance (compileAssignment s.sequence e)

def projection (e : Expr) : Run Session Projection :=
  Run.lift (compileProjection e)

def key (e : Expr) : Run Session String :=
  Run.lift (compileKey e)

/-- Compile the clauses of a query in the order WHERE, SELECT, GROUP BY, HAVING, ORDER BY, and
    assemble them. -/
def query (q : Query) : Run Session Pipeline := do
  let filter ← q.filter.mapM filter
  let attributes ← q.select.mapM fun item => do
    return ({ name := item.name, projection := ← projection item.expression } : OutputAttribute)
  let groupBy ← q.groupBy.mapM key
  let having ← q.having.mapM having
  let orderBy ← q.orderBy.mapM fun item => do
    return ({ field := ← key item.expression, order := item.order } : SortKey)
  let config := (← get).config
  Run.lift (Selection.assemble config
    { filter, attributes, groupBy, having, orderBy, offset := q.offset, limit := q.limit })

/-- Compile the assignments of an update in order, and assemble them. -/
def update (assignments : List (String × Expr)) : Run Session Update := do
  let compiled ← assignments.mapM fun a => do
    return (a.1, ← assignment a.2)
  Run.lift (Update.assemble compiled)

end Session

end QueryPipeline
