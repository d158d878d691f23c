import QueryPipeline.Expr
import QueryPipeline.Json.Draft

/-!
# Descriptions of values and expressions

An expression is described by an object whose field `kind` says what it is; the other fields hold its
parts.  Reading accepts fields in any order and ignores unknown ones, writing gives every field in a
fixed order, `kind` first.

A description may also be a list of the kind and the parts in this order.  Inside a description
everything has been set aside before it is looked at, and then a kind may be given by its number, and
a name by an object with nothing in it.

## Main definitions

- `Value.toJson`, `Value.ofJson?`.
- `Expr.toJson`, `Expr.ofJson?`.
- `Expr.ofSetAside?`: an expression inside a description.
- `Expr.ofDraft`: an expression read front to back.
-/

namespace QueryPipeline

/-! ## §1 Values -/

def Value.toJson : Value → Json
  | null => .null
  | bool b => .bool b
  | int n => .int n.toInt
  | long n => .int n.toInt
  | double x => .scalar (.double x)
  | float x => .scalar (.single x)
  | text s => .text s

/-- The value of an integer: the narrowest kind that holds it. -/
def Value.ofInt (n : Int) : Value :=
  if Int32.minValue.toInt ≤ n ∧ n ≤ Int32.maxValue.toInt then .int (.ofInt n)
  else if Int64.minValue.toInt ≤ n ∧ n ≤ Int64.maxValue.toInt then .long (.ofInt n)
  else .double (.ofInt n)

/-- The value a scalar describes. -/
def Value.ofScalar : Scalar → Value
  | .null => null
  | .bool b => bool b
  | .int n => ofInt n
  | .double x => double x
  | .single x => double x.toFloat
  | .text s => text s

/-- The value a description stands for; lists and objects stand for none. -/
def Value.ofJson? : Json → Option Value
  | .scalar s => some (ofScalar s)
  | _ => none

/-- A value read front to back. -/
def Value.ofDraft : Draft → Except ReadError Value :=
  Draft.whole Value.ofJson?

/-! ## §2 Writing expressions -/

def Column.fields (c : Column) : List (String × Json) :=
  [("table_id", .optionalText c.table), ("field", .text c.field), ("type", .text c.type.name)]

def Variable.fields (v : Variable) : List (String × Json) :=
  [("id", .optionalText v.id), ("source_id", .optionalText v.source), ("field", .text v.field),
    ("type", .text v.type.name)]

namespace Expr

/-- A description of a given kind. -/
def describe (kind : String) (fields : List (String × Json)) : Json :=
  .object (("kind", .text kind) :: fields)

mutual

def toJson : Expr → Json
  | .and l r => describe "and" [("left", l.toJson), ("right", r.toJson)]
  | .or l r => describe "or" [("left", l.toJson), ("right", r.toJson)]
  | .not e => describe "not" [("operand", e.toJson)]
  | .compare op l r =>
    describe "compare" [("op", .text op.name), ("left", l.toJson), ("right", r.toJson)]
  | .isNull e => describe "is_null" [("operand", e.toJson)]
  | .member e s => describe "in" [("operand", e.toJson), ("source", .text s)]
  | .arithmetic op l r =>
    describe "math" [("op", .text op.name), ("left", l.toJson), ("right", r.toJson)]
  | .call f args =>
    describe "function" [("namespace", .optionalText f.qualifier), ("name", .text f.name),
      ("args", .list (toJsonAll args))]
  | .column c => describe "column" c.fields
  | .variable v => describe "variable" v.fields
  | .constant v ty => describe "constant" [("value", v.toJson), ("type", .text ty.name)]

def toJsonAll : List Expr → List Json
  | [] => []
  | e :: rest => e.toJson :: toJsonAll rest

end

/-! ## §3 Reading expressions -/

/-- The kinds of expressions. -/
def kinds : List String :=
  ["and", "or", "not", "compare", "is_null", "in", "math", "function", "column", "variable",
    "constant"]

/-- The fields of a kind, in the order of writing. -/
def fieldNames (kind : String) : List String :=
  match kind with
  | "and" => ["left", "right"]
  | "or" => ["left", "right"]
  | "not" => ["operand"]
  | "compare" => ["op", "left", "right"]
  | "is_null" => ["operand"]
  | "in" => ["operand", "source"]
  | "math" => ["op", "left", "right"]
  | "function" => ["namespace", "name", "args"]
  | "column" => ["table_id", "field", "type"]
  | "variable" => ["id", "source_id", "field", "type"]
  | "constant" => ["value", "type"]
  | _ => []

/-- A described part, together with what it is as an expression and as a list of expressions. -/
structure Part where
  json : Json
  expr : Option Expr
  exprs : Option (List Expr)

namespace Part

def text? (p : Part) : Option String :=
  match p.json with
  | .text s => some s
  | _ => none

/-- A kind, by its name or by its number. -/
def kind? (p : Part) : Option String :=
  match p.json with
  | .text s => some s
  | .int n => if 0 ≤ n then kinds[n.toNat]? else none
  | _ => none

/-- A name: a text, or the only field of an object, with null or an empty object in it. -/
def name? (p : Part) : Option String :=
  match p.json with
  | .text s => some s
  | .object [(name, .null)] => some name
  | .object [(name, .object [])] => some name
  | _ => none

end Part

/-- The parts of a description, by field name. -/
abbrev Parts := List (String × Part)

namespace Parts

/-- The part of a field, which may be there once at most. -/
def optional (parts : Parts) (name : String) : Option (Option Part) :=
  match parts.filter (·.1 == name) with
  | [] => some none
  | [(_, p)] => some (some p)
  | _ => none

/-- The part of a field that must be there once. -/
def required (parts : Parts) (name : String) : Option Part := do
  (← parts.optional name)

def expr (parts : Parts) (name : String) : Option Expr := do
  (← parts.required name).expr

def text (parts : Parts) (name : String) : Option String := do
  (← parts.required name).text?

/-- A field that holds a text, or null, or is absent. -/
def textOrNull (parts : Parts) (name : String) : Option (Option String) := do
  match ← parts.optional name with
  | none => some none
  | some p =>
    match p.json with
    | .text s => some (some s)
    | .null => some none
    | _ => none

/-- A field that names one of several things. -/
def choice {α : Type} (parts : Parts) (name : String) (ofName? : String → Option α) : Option α := do
  ofName? (← (← parts.required name).name?)

def type (parts : Parts) : Option AttributeType :=
  parts.choice "type" AttributeType.ofName?

/-- The arguments of a call; none are there if the field is absent. -/
def args (parts : Parts) : Option (List Expr) := do
  match ← parts.optional "args" with
  | none => some []
  | some p => p.exprs

def toColumn (parts : Parts) : Option Column := do
  return {
    table := ← parts.textOrNull "table_id"
    field := ← parts.text "field"
    type := ← parts.type }

def toVariable (parts : Parts) : Option Variable := do
  return {
    id := ← parts.textOrNull "id"
    source := ← parts.textOrNull "source_id"
    field := ← parts.text "field"
    type := ← parts.type }

/-- The expression of a given kind that fields describe. -/
def ofKind (parts : Parts) (kind : String) : Option Expr :=
  match kind with
  | "and" => do return .and (← parts.expr "left") (← parts.expr "right")
  | "or" => do return .or (← parts.expr "left") (← parts.expr "right")
  | "not" => do return .not (← parts.expr "operand")
  | "compare" => do
    let op ← parts.choice "op" CompareOp.ofName?
    return .compare op (← parts.expr "left") (← parts.expr "right")
  | "is_null" => do return .isNull (← parts.expr "operand")
  | "in" => do return .member (← parts.expr "operand") (← parts.text "source")
  | "math" => do
    let op ← parts.choice "op" MathOp.ofName?
    return .arithmetic op (← parts.expr "left") (← parts.expr "right")
  | "function" => do
    let f : FunctionName := {
      qualifier := ← parts.textOrNull "namespace"
      name := ← parts.text "name" }
    return .call f (← parts.args)
  | "column" => do return .column (← parts.toColumn)
  | "variable" => do return .variable (← parts.toVariable)
  | "constant" => do
    let value ← Value.ofJson? (← parts.required "value").json
    return .constant value (← parts.type)
  | _ => none

/-- The expression that fields describe. -/
def toExpr (parts : Parts) : Option Expr := do
  parts.ofKind (← (← parts.required "kind").kind?)

/-- The expression that a list describes: its kind, and then its fields in the order of writing, of
    which the last ones may be absent. -/
def ofList? : List Part → Option Expr
  | [] => none
  | first :: items => do
    let kind ← first.kind?
    if (fieldNames kind).length < items.length then none
    else ofKind ((fieldNames kind).zip items) kind

end Parts

/-- The expressions of a list. -/
def listed : List Part → Option (List Expr)
  | [] => some []
  | p :: rest => do return (← p.expr) :: (← listed rest)

mutual

/-- A value with everything it can be as a part. -/
def part : Json → Part
  | .scalar s => ⟨.scalar s, none, none⟩
  | .list items => ⟨.list items, Parts.ofList? (itemParts items), listed (itemParts items)⟩
  | .object fields => ⟨.object fields, (parts fields).toExpr, none⟩

def parts : List (String × Json) → Parts
  | [] => []
  | (name, j) :: rest => (name, part j) :: parts rest

def itemParts : List Json → List Part
  | [] => []
  | j :: rest => part j :: itemParts rest

end

/-- The expression that a value describes inside a description. -/
def ofSetAside? (j : Json) : Option Expr :=
  (part j).expr

/-! ## §4 Reading expressions front to back -/

def kindOf? (name : String) : Option String :=
  if kinds.contains name then some name else none

/-- The fields of a description.  The kind is checked where it stands, all else when the object is
    closed. -/
def readFields (kindSeen : Bool) :
    List (Except Fault String × Draft) → Except ReadError (List (String × Json))
  | [] => .ok []
  | (.error f, _) :: _ => .error (.text f.wanted)
  | (.ok name, d) :: rest =>
    if name = "kind" then
      if kindSeen then .error .shape
      else do
        let kind ← Draft.named kindOf? d
        return (name, .text kind) :: (← readFields true rest)
    else do
      let j ← d.value.mapError .text
      return (name, j) :: (← readFields kindSeen rest)

/-- An expression read front to back.  Of a list the kind is checked at once, as in an object, and
    here it must be a name. -/
def ofDraft : Draft → Except ReadError Expr
  | .object fields => do
    let fields ← readFields false fields
    ReadError.orShape (ofSetAside? (.object fields))
  | .list (first :: rest) => do
    let kind ← Draft.named kindOf? first
    let items ← (Draft.valueItems rest).mapError .text
    ReadError.orShape (ofSetAside? (.list (.text kind :: items)))
  | d => d.whole ofSetAside?

/-- The expression that a value describes. -/
def ofJson? (j : Json) : Option Expr :=
  (ofDraft j.draft).toOption

end Expr

end QueryPipeline
