import QueryPipeline.Json.Draft
import QueryPipeline.Number.Numeral

/-!
# Reading JSON text

`Draft.ofText` reads the value that a text starts with, as a draft.  A part of the reader gives what it
has read and the text that is left, or no text at all where a fault ends the reading.

## Main definitions

- `Draft.readNumber`, `Draft.readQuoted`, `Draft.readValue`: the parts of the reader.
- `Draft.ofText`: the value a text starts with.
- `readText`: a whole text read as something.
-/

namespace QueryPipeline

namespace Draft

/-! ## §1 Blanks and words -/

/-- The blanks of JSON text. -/
def isBlank (c : Char) : Bool :=
  c == ' ' || c == '\n' || c == '\t' || c == '\r'

/-- The text after the blanks it starts with. -/
def skipBlanks (cs : List Char) : List Char :=
  cs.dropWhile isBlank

/-- A draft at which the reading ends. -/
def broken (f : TextFault) : Draft :=
  .faulty (.fatal f)

/-- A field at whose name the reading ends. -/
def brokenField (f : TextFault) : Except Fault String × Draft :=
  (.error (.fatal f), broken f)

/-- The text after a word it should start with. -/
def readWord : List Char → List Char → Except TextFault (List Char)
  | [], cs => .ok cs
  | _ :: _, [] => .error .truncated
  | w :: ws, c :: cs => if w = c then readWord ws cs else .error .malformed

/-- A word that stands for a scalar. -/
def readConstant (word : String) (s : Scalar) (cs : List Char) : Draft × Option (List Char) :=
  match readWord word.toList cs with
  | .ok rest => (.scalar s, some rest)
  | .error f => (.faulty (Fault.fatal f).notText, none)

/-! ## §2 Numbers -/

/-- The digits a text starts with, and the text after them. -/
def readDigits (cs : List Char) : List Char × List Char :=
  (cs.takeWhile Char.isDigit, cs.dropWhile Char.isDigit)

/-- The fault of a missing digit.  A reader that passes over the number takes the end of the text for
    a wrong character. -/
def missingDigit : List Char → Fault
  | [] => ⟨.truncated, .malformed, some .malformed⟩
  | _ :: _ => .fatal .malformed

/-- Digits of which at least one is needed. -/
def readSomeDigits (cs : List Char) : Except Fault (List Char × List Char) :=
  match readDigits cs with
  | ([], _) => .error (missingDigit cs)
  | digits => .ok digits

/-- The digits before the point: a zero stands alone. -/
def readWhole : List Char → Except Fault (List Char × List Char)
  | '0' :: cs =>
    match cs with
    | c :: _ => if c.isDigit then .error (.fatal .malformed) else .ok (['0'], cs)
    | [] => .ok (['0'], cs)
  | cs => readSomeDigits cs

/-- The digits behind the point, if there is one. -/
def readFraction : List Char → Except Fault (Option (List Char) × List Char)
  | '.' :: cs => do
    let (digits, rest) ← readSomeDigits cs
    return (some digits, rest)
  | cs => .ok (none, cs)

/-- The sign of an exponent, and the text after it. -/
def readSign : List Char → Bool × List Char
  | '+' :: cs => (false, cs)
  | '-' :: cs => (true, cs)
  | cs => (false, cs)

/-- The exponent, if there is one. -/
def readExponent : List Char → Except Fault (Option Int × List Char)
  | c :: cs =>
    if c = 'e' || c = 'E' then do
      let (negative, cs) := readSign cs
      let (digits, rest) ← readSomeDigits cs
      let n : Int := Number.digitsValue digits
      return (some (if negative then -n else n), rest)
    else .ok (none, c :: cs)
  | [] => .ok (none, [])

/-- A number.  Without fraction and exponent it is an integer, as long as 64 bits hold it and it is
    not a negative zero.  A number too large for a double is no value. -/
def numberDraft (negative : Bool) (whole : List Char) (fraction : Option (List Char))
    (exponent : Option Int) : Draft :=
  let n := Number.digitsValue whole
  let isInteger := fraction.isNone && exponent.isNone
    && if negative then 0 < n && n ≤ Nat.pow 2 63 else n < Nat.pow 2 64
  if isInteger then .scalar (.int (if negative then -n else n))
  else
    match (Number.Numeral.leading negative whole (fraction.getD []) (exponent.getD 0)).scaled? with
    | some x => .scalar (.double x)
    | none => .faulty .passable

def readNumber (cs : List Char) : Draft × Option (List Char) :=
  let (negative, cs) := match cs with
    | '-' :: cs => (true, cs)
    | cs => (false, cs)
  let parts : Except Fault (Draft × List Char) := do
    let (whole, cs) ← readWhole cs
    let (fraction, cs) ← readFraction cs
    let (exponent, cs) ← readExponent cs
    return (numberDraft negative whole fraction exponent, cs)
  match parts with
  | .ok (d, rest) => (d, some rest)
  | .error f => (.faulty f, none)

/-! ## §3 Texts -/

/-- The value of a hexadecimal digit. -/
def hexDigit? (c : Char) : Option Nat :=
  if c.isDigit then some (c.toNat - '0'.toNat)
  else if 'a' ≤ c && c ≤ 'f' then some (c.toNat - 'a'.toNat + 10)
  else if 'A' ≤ c && c ≤ 'F' then some (c.toNat - 'A'.toNat + 10)
  else none

/-- The value of four hexadecimal digits. -/
def hexValue? (a b c d : Char) : Option Nat := do
  return (((← hexDigit? a) * 16 + (← hexDigit? b)) * 16 + (← hexDigit? c)) * 16 + (← hexDigit? d)

/-- The fault of an escape without its four digits: the end of the text comes first if fewer than
    four bytes are left. -/
def missingHex (cs : List Char) : TextFault :=
  if (String.ofList cs).utf8ByteSize < 4 then .truncated else .malformed

/-- Escapes of one character. -/
def unescape? (c : Char) : Option Char :=
  if c = '"' || c = '\\' || c = '/' then some c
  else if c = 'b' then some (Char.ofNat 8)
  else if c = 'f' then some (Char.ofNat 12)
  else if c = 'n' then some '\n'
  else if c = 'r' then some '\r'
  else if c = 't' then some '\t'
  else none

/-- The first half of a surrogate pair. -/
def isHighSurrogate (n : Nat) : Bool :=
  0xD800 ≤ n && n < 0xDC00

/-- The second half of a surrogate pair. -/
def isLowSurrogate (n : Nat) : Bool :=
  0xDC00 ≤ n && n < 0xE000

/-- The character of a surrogate pair. -/
def joinSurrogates (high low : Nat) : Char :=
  Char.ofNat (0x10000 + (high - 0xD800) * 0x400 + (low - 0xDC00))

/-- A text under reading. -/
structure Quoted where
  /-- The characters so far, last first. -/
  chars : List Char := []
  /-- The first half of a surrogate pair, if it was the last thing read. -/
  high : Option Nat := none
  /-- Whether a surrogate was met without its partner. -/
  lone : Bool := false

namespace Quoted

/-- A character that is no second half of a pair. -/
def push (q : Quoted) (c : Char) : Quoted :=
  { chars := c :: q.chars, high := none, lone := q.lone || q.high.isSome }

/-- A code unit written as an escape. -/
def pushUnit (q : Quoted) (n : Nat) : Quoted :=
  if isHighSurrogate n then { q with high := some n, lone := q.lone || q.high.isSome }
  else if isLowSurrogate n then
    match q.high with
    | some high => { q with chars := joinSurrogates high n :: q.chars, high := none }
    | none => { q with lone := true }
  else q.push (Char.ofNat n)

/-- The text at its closing quote. -/
def close (q : Quoted) : Except Fault String :=
  if q.lone || q.high.isSome then .error .passable
  else .ok (String.ofList q.chars.reverse)

/-- A fault inside the text.  A surrogate without its partner was met before it. -/
def fault (q : Quoted) (f : TextFault) : Fault :=
  let first := if q.lone then .malformed else f
  ⟨first, first, some f⟩

end Quoted

/-- The text after an opening quote, up to the closing one. -/
def readQuoted (q : Quoted) : List Char → Except Fault String × Option (List Char)
  | [] => (.error (q.fault .truncated), none)
  | c :: cs =>
    if c = '"' then (q.close, some cs)
    else if c = '\\' then
      match cs with
      | [] => (.error (q.fault .truncated), none)
      | e :: cs =>
        if e = 'u' then
          match cs with
          | a :: b :: c :: d :: rest =>
            match hexValue? a b c d with
            | some n => readQuoted (q.pushUnit n) rest
            | none => (.error (q.fault (missingHex cs)), none)
          | short => (.error (q.fault (missingHex short)), none)
        else
          match unescape? e with
          | some c => readQuoted (q.push c) cs
          | none => (.error (q.fault .malformed), none)
    else if c.toNat < 32 then (.error (q.fault .malformed), none)
    else readQuoted (q.push c) cs

/-! ## §4 Values -/

/-- A container that was opened beyond the limit of nesting: nobody can want it, and passing over it
    still meets what is wrong inside. -/
def tooDeep (d : Draft) : Draft :=
  .faulty ⟨.malformed, .malformed, d.skipFault⟩

mutual

/-- The value a text starts with, after blanks.  `room` is how many containers may still be opened
    around each other. -/
def readValue (fuel room : Nat) (cs : List Char) : Draft × Option (List Char) :=
  match fuel with
  | 0 => (broken .malformed, none)
  | fuel + 1 =>
    match skipBlanks cs with
    | [] => (broken .truncated, none)
    | c :: cs =>
      if c = 'n' then readConstant "ull" .null cs
      else if c = 't' then readConstant "rue" (.bool true) cs
      else if c = 'f' then readConstant "alse" (.bool false) cs
      else if c = '"' then
        match readQuoted {} cs with
        | (.ok s, rest) => (.scalar (.text s), rest)
        | (.error f, rest) => (.faulty f, rest)
      else if c = '-' || c.isDigit then readNumber (c :: cs)
      else if c = '[' || c = '\x7b' then
        -- the container is read to its end even where it is not allowed to stand
        let (d, rest) :=
          if c = '[' then
            match readList fuel (room - 1) cs with
            | (items, rest) => (Draft.list items, rest)
          else
            match readObject fuel (room - 1) cs with
            | (fields, rest) => (Draft.object fields, rest)
        (if room = 0 then tooDeep d else d, rest)
      else (broken .malformed, none)
termination_by structural fuel

/-- The items of a list, after its opening bracket. -/
def readList (fuel room : Nat) (cs : List Char) : List Draft × Option (List Char) :=
  match fuel with
  | 0 => ([broken .malformed], none)
  | fuel + 1 =>
    match skipBlanks cs with
    | ']' :: rest => ([], some rest)
    -- from here on a closing bracket comes after an item, never after a comma
    | cs => readItemsFrom fuel room cs
termination_by structural fuel

/-- The items of a list, from one that must be there. -/
def readItemsFrom (fuel room : Nat) (cs : List Char) : List Draft × Option (List Char) :=
  match fuel with
  | 0 => ([broken .malformed], none)
  | fuel + 1 =>
    match readValue fuel room cs with
    | (d, none) => ([d], none)
    | (d, some rest) =>
      match skipBlanks rest with
      | ',' :: rest =>
        let (ds, rest) := readItemsFrom fuel room rest
        (d :: ds, rest)
      | ']' :: rest => ([d], some rest)
      | [] => ([d, broken .truncated], none)
      | _ => ([d, broken .malformed], none)
termination_by structural fuel

/-- The fields of an object, after its opening brace. -/
def readObject (fuel room : Nat) (cs : List Char) :
    List (Except Fault String × Draft) × Option (List Char) :=
  match fuel with
  | 0 => ([brokenField .malformed], none)
  | fuel + 1 =>
    match skipBlanks cs with
    | '\x7d' :: rest => ([], some rest)
    | cs => readFieldsFrom fuel room cs
termination_by structural fuel

/-- The fields of an object, from one that must be there. -/
def readFieldsFrom (fuel room : Nat) (cs : List Char) :
    List (Except Fault String × Draft) × Option (List Char) :=
  match fuel with
  | 0 => ([brokenField .malformed], none)
  | fuel + 1 =>
    match skipBlanks cs with
    | [] => ([brokenField .truncated], none)
    | '"' :: cs =>
      match readQuoted {} cs with
      -- a name without an end is a fault itself, and nobody looks at its value
      | (name, none) => ([(name, broken .malformed)], none)
      | (name, some rest) =>
        match skipBlanks rest with
        | ':' :: rest =>
          match readValue fuel room rest with
          | (d, none) => ([(name, d)], none)
          | (d, some rest) =>
            match skipBlanks rest with
            | ',' :: rest =>
              let (fields, rest) := readFieldsFrom fuel room rest
              ((name, d) :: fields, rest)
            | '\x7d' :: rest => ([(name, d)], some rest)
            | [] => ([(name, d), brokenField .truncated], none)
            | _ => ([(name, d), brokenField .malformed], none)
        | [] => ([(name, broken .truncated)], none)
        | _ => ([(name, broken .malformed)], none)
    | _ => ([brokenField .malformed], none)
termination_by structural fuel

end

/-- How many containers may stand around each other. -/
def maxNesting : Nat := 127

/-- The value a text starts with, and the text left after it, if the reading got that far.  Every
    character is looked at a bounded number of times, so the fuel is never used up. -/
def ofText (text : String) : Draft × Option (List Char) :=
  let cs := text.toList
  readValue (4 * cs.length + 4) maxNesting cs

end Draft

/-! ## §5 Whole texts -/

/-- A whole text read by `read`.  What follows the value is looked at last, and only blanks may. -/
def readText {α : Type} (read : Draft → Except ReadError α) (text : String) :
    Except ReadError α := do
  let (d, rest) := Draft.ofText text
  let a ← read d
  match rest.map Draft.skipBlanks with
  | some [] => return a
  | _ => throw (.text .malformed)

end QueryPipeline
