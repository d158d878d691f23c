import QueryPipeline.Number.Style

/-!
# Attribute types and values

Constants of an expression and values bound at execution time are `Value`s.  A value is written
into a fragment according to an attribute type: string-typed text stands in single quotes, all other
text stands bare, and null is never quoted.

## Main definitions

- `AttributeType`: the types attached to columns, variables and constants.
- `Value.display`: the bare text of a value.
- `Value.renderAs`, `Value.render`: the text of a value in a fragment.
-/

namespace QueryPipeline

/-! ## §1 Attribute types -/

/-- Types attached to columns, variables and constants. -/
inductive AttributeType where
  | string
  | int
  | long
  | float
  | double
  | bool
  | object
deriving Repr, DecidableEq

namespace AttributeType

def all : List AttributeType :=
  [string, int, long, float, double, bool, object]

/-- The name of a type in query descriptions and listings. -/
def name : AttributeType → String
  | string => "string"
  | int => "int"
  | long => "long"
  | float => "float"
  | double => "double"
  | bool => "bool"
  | object => "object"

/-- The type with a given name; names are compared exactly. -/
def ofName? (s : String) : Option AttributeType :=
  all.find? (·.name == s)

@[simp] theorem ofName?_name (ty : AttributeType) : ofName? ty.name = some ty := by
  cases ty <;> rfl

/-- Whether values declared with this type are written in single quotes. -/
def isQuoted : AttributeType → Bool
  | string => true
  | _ => false

end AttributeType

/-! ## §2 Values -/

/-- A constant, or a value bound to a variable. -/
inductive Value where
  | null
  | bool (b : Bool)
  | int (n : Int32)
  | long (n : Int64)
  | double (x : Float)
  | float (x : Float32)
  | text (s : String)
deriving Repr, DecidableEq

/-- Numbers in fragments have no exponent and no `.0`, however large or small they are. -/
def fragmentNumbers : Number.Style where
  positional := fun _ => true
  pointZero := false
  tie := .awayFromZero

namespace Value

/-- The type a value has of its own; null has none. -/
def type? : Value → Option AttributeType
  | null => none
  | bool _ => some .bool
  | int _ => some .int
  | long _ => some .long
  | double _ => some .double
  | float _ => some .float
  | text _ => some .string

/-- The bare text of a value. -/
def display : Value → String
  | null => "null"
  | bool b => if b then "true" else "false"
  | int n => toString n.toInt
  | long n => toString n.toInt
  | double x => fragmentNumbers.writeDouble x
  | float x => fragmentNumbers.writeSingle x
  | text s => s

/-- The text of a value declared with type `ty`.  Quotes inside the text stay as they are. -/
def renderAs (v : Value) (ty : AttributeType) : String :=
  match v with
  | null => "null"
  | _ => if ty.isQuoted then "'" ++ v.display ++ "'" else v.display

/-- The text of a value under its own type. -/
def render (v : Value) : String :=
  match v.type? with
  | some ty => v.renderAs ty
  | none => "null"

end Value

end QueryPipeline
