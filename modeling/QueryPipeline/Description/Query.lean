import QueryPipeline.Description.Expr
import QueryPipeline.Session

/-!
# Descriptions of queries, configurations and bindings

A query is described by an object in which every clause is optional, and so is a configuration.
Either may also be a list of its fields in the order of writing.  Bindings are an object of values;
there a name may come twice, and the last value counts.

The readers of queries and bindings take the reader of their expressions or values as an argument, so
that they can be used where expressions or values are given in another form.

## Main definitions

- `Query.toJson`, `Query.read`, `Query.ofDraft`, `Query.ofJson?`.
- `Config.toJson`, `Config.ofDraft`, `Config.ofJson?`.
- `Bindings.read`, `Bindings.ofDraft`.
-/

namespace QueryPipeline

/-! ## §1 Queries -/

/-- A count, or null if there is none. -/
def countToJson : Option UInt64 → Json
  | some n => .int n.toNat
  | none => .null

/-- An expression, or null if there is none. -/
def clauseToJson : Option Expr → Json
  | some e => e.toJson
  | none => .null

def SelectItem.toJson (i : SelectItem) : Json :=
  .object [("name", .text i.name), ("expression", i.expression.toJson)]

def OrderItem.toJson (i : OrderItem) : Json :=
  .object [("expression", i.expression.toJson), ("order", .text i.order.name)]

def Query.toJson (q : Query) : Json :=
  .object [("where", clauseToJson q.filter), ("select", .list (q.select.map SelectItem.toJson)),
    ("group_by", .list (q.groupBy.map Expr.toJson)), ("having", clauseToJson q.having),
    ("order_by", .list (q.orderBy.map OrderItem.toJson)), ("limit", countToJson q.limit),
    ("offset", countToJson q.offset)]

/-- A count of 64 bits. -/
def readCount : Draft → Except ReadError UInt64 :=
  Draft.scalarAs fun
    | .int n => if 0 ≤ n ∧ n < Int.pow 2 64 then some (.ofNat n.toNat) else none
    | _ => none

variable (expr : Draft → Except ReadError Expr)

def SelectItem.read (d : Draft) : Except ReadError SelectItem := do
  let (name, expression) ← d.record ["name", "expression"]
    (fun ((name, expression) : Option String × Option Expr) field =>
      match field with
      | "name" => some fun d => do return (some (← d.text), expression)
      | "expression" => some fun d => do return (name, some (← expr d))
      | _ => none)
    (none, none)
  return { name := ← ReadError.orShape name, expression := ← ReadError.orShape expression }

/-- An ORDER BY entry, ascending unless it says otherwise. -/
def OrderItem.read (d : Draft) : Except ReadError OrderItem := do
  let (expression, order) ← d.record ["expression", "order"]
    (fun ((expression, order) : Option Expr × SortOrder) field =>
      match field with
      | "expression" => some fun d => do return (some (← expr d), order)
      | "order" => some fun d => do return (expression, ← d.choice SortOrder.ofName?)
      | _ => none)
    (none, .asc)
  return { expression := ← ReadError.orShape expression, order }

/-- How a clause of a query is read. -/
def Query.readClause (q : Query) : String → Option (Draft → Except ReadError Query)
  | "where" => some fun d => do return { q with filter := ← d.orNull expr }
  | "select" => some fun d => do return { q with select := ← d.items (SelectItem.read expr) }
  | "group_by" => some fun d => do return { q with groupBy := ← d.items expr }
  | "having" => some fun d => do return { q with having := ← d.orNull expr }
  | "order_by" => some fun d => do return { q with orderBy := ← d.items (OrderItem.read expr) }
  | "limit" => some fun d => do return { q with limit := ← d.orNull readCount }
  | "offset" => some fun d => do return { q with offset := ← d.orNull readCount }
  | _ => none

/-- A query whose expressions are read by `expr`. -/
def Query.read (d : Draft) : Except ReadError Query :=
  d.record ["where", "select", "group_by", "having", "order_by", "limit", "offset"]
    (Query.readClause expr) {}

/-- A query read front to back. -/
def Query.ofDraft : Draft → Except ReadError Query :=
  Query.read Expr.ofDraft

def Query.ofJson? (j : Json) : Option Query :=
  (Query.ofDraft j.draft).toOption

/-! ## §2 Configurations -/

def Config.toJson (c : Config) : Json :=
  .object [("id_field", .text c.idField), ("group_fallback", .text c.fallback.name)]

/-- A configuration read front to back. -/
def Config.ofDraft (d : Draft) : Except ReadError Config :=
  d.record ["id_field", "group_fallback"]
    (fun c field =>
      match field with
      | "id_field" => some fun d => do return { c with idField := ← d.text }
      | "group_fallback" => some fun d => do
        return { c with fallback := ← d.choice Fallback.ofName? }
      | _ => none)
    {}

def Config.ofJson? (j : Json) : Option Config :=
  (Config.ofDraft j.draft).toOption

/-! ## §3 Bindings -/

variable (value : Draft → Except ReadError Value)

/-- Bound values read one after the other. -/
def Bindings.readFields (b : Bindings) :
    List (Except Fault String × Draft) → Except ReadError Bindings
  | [] => .ok b
  | (.error f, _) :: _ => .error (.text f.wanted)
  | (.ok name, d) :: rest => do
    let v ← value d
    readFields (b.insert name v) rest

/-- Bindings whose values are read by `value`. -/
def Bindings.read : Draft → Except ReadError Bindings
  | .object fields => Bindings.readFields value .empty fields
  | .faulty f => .error (.text f.wanted)
  | _ => .error .shape

/-- Bindings read front to back. -/
def Bindings.ofDraft : Draft → Except ReadError Bindings :=
  Bindings.read Value.ofDraft

end QueryPipeline
