import QueryPipeline.Json.Basic
import QueryPipeline.Number.Style

/-!
# Writing JSON

`Json.compact` writes a value without blanks, `Json.pretty` with one item a line.  Inside a text only
the quote, the backslash and the control characters are escaped.
-/

namespace QueryPipeline

/-- Floating values in JSON keep `.0` when they are whole, and have an exponent from `10 ^ 16` up and
    below `10 ^ -5`. -/
def jsonNumbers : Number.Style where
  positional := fun e => -5 ≤ e && e < 16
  pointZero := true
  tie := .toEven

/-! ## §1 Scalars -/

/-- The escaped form of a character in a text. -/
def escapeChar (c : Char) : String :=
  if c = '"' then "\\\""
  else if c = '\\' then "\\\\"
  else if c.toNat = 8 then "\\b"
  else if c.toNat = 9 then "\\t"
  else if c.toNat = 10 then "\\n"
  else if c.toNat = 12 then "\\f"
  else if c.toNat = 13 then "\\r"
  else if c.toNat < 32 then
    let digits := Nat.toDigits 16 c.toNat
    "\\u" ++ String.ofList (List.replicate (4 - digits.length) '0' ++ digits)
  else String.singleton c

def quoteText (s : String) : String :=
  "\"" ++ String.join (s.toList.map escapeChar) ++ "\""

/-- The text of a scalar.  Only finite numbers can be written; the others become null. -/
def Scalar.write : Scalar → String
  | null => "null"
  | bool b => if b then "true" else "false"
  | int n => toString n
  | double x => if x.isFinite then jsonNumbers.writeDouble x else "null"
  | single x => if x.isFinite then jsonNumbers.writeSingle x else "null"
  | text s => quoteText s

namespace Json

/-! ## §2 Without blanks -/

mutual

/-- A value written without blanks. -/
def compact : Json → String
  | .scalar s => s.write
  | .list items => "[" ++ ",".intercalate (compactItems items) ++ "]"
  | .object fields => "\x7b" ++ ",".intercalate (compactFields fields) ++ "\x7d"

def compactItems : List Json → List String
  | [] => []
  | j :: rest => j.compact :: compactItems rest

def compactFields : List (String × Json) → List String
  | [] => []
  | (name, j) :: rest => (quoteText name ++ ":" ++ j.compact) :: compactFields rest

end

/-! ## §3 One item a line -/

/-- A line break, and two blanks for each level. -/
def lineBreak (level : Nat) : String :=
  "\n" ++ String.ofList (List.replicate (2 * level) ' ')

/-- Items between brackets, one a line; nothing at all stands between the brackets of an empty
    container. -/
def layoutItems (level : Nat) (left right : String) (items : List String) : String :=
  if items.isEmpty then left ++ right
  else
    left ++ lineBreak (level + 1) ++ ("," ++ lineBreak (level + 1)).intercalate items
      ++ lineBreak level ++ right

mutual

/-- A value written at a level of nesting, one item a line. -/
def prettyAt (level : Nat) : Json → String
  | .scalar s => s.write
  | .list items => layoutItems level "[" "]" (prettyItems (level + 1) items)
  | .object fields => layoutItems level "\x7b" "\x7d" (prettyFields (level + 1) fields)

def prettyItems (level : Nat) : List Json → List String
  | [] => []
  | j :: rest => j.prettyAt level :: prettyItems level rest

def prettyFields (level : Nat) : List (String × Json) → List String
  | [] => []
  | (name, j) :: rest => (quoteText name ++ ": " ++ j.prettyAt level) :: prettyFields level rest

end

/-- A value written with one item a line. -/
def pretty (j : Json) : String :=
  j.prettyAt 0

end Json

end QueryPipeline
