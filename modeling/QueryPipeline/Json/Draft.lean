import QueryPipeline.Json.Basic

/-!
# Drafts: JSON text as far as it could be read

What a text holds is decoded front to back, and the first thing that is wrong decides the answer: a
value of the wrong shape may stand before the place where the text itself breaks off.  So the reader
does not stop at a fault with nothing in hand; it gives a `Draft`, a value in which the fault stands
where it was met.

Some faults matter only to those who want the value.  A number too large for a double, a surrogate
without its partner and nesting beyond the limit are passed over along with a field that nobody asks
for.

## Main definitions

- `TextFault`, `Fault`, `Draft`.
- `Draft.value`: the value of a draft that has no fault.
- `Draft.skip`: a draft passed over.
- `Json.draft`: a value as a draft without faults.
- `ReadError`, and the helpers of typed reading: `Draft.text`, `Draft.choice`, `Draft.items`,
  `Draft.record`.

A record may be written as a list of its fields, and a name as an object with nothing in it, though
nobody writes them so.
-/

namespace QueryPipeline

/-! ## §1 Faults and drafts -/

/-- What can be wrong with a text. -/
inductive TextFault where
  /-- The text ended where more was needed. -/
  | truncated
  /-- The text went on in a way that no JSON text does. -/
  | malformed
deriving Repr, DecidableEq

/-- A fault, as seen by the three kinds of readers. -/
structure Fault where
  /-- What it means to a reader that wants the value. -/
  wanted : TextFault
  /-- What it means to a reader that wants a text, and looks no further if there is none. -/
  asText : TextFault
  /-- What it means to a reader that passes over the value, if anything. -/
  skipped : Option TextFault
deriving Repr, DecidableEq

/-- A fault at which every reader stops. -/
def Fault.fatal (f : TextFault) : Fault :=
  ⟨f, f, some f⟩

/-- A fault that can be passed over. -/
def Fault.passable : Fault :=
  ⟨.malformed, .malformed, none⟩

/-- A fault inside something that does not start like a text. -/
def Fault.notText (f : Fault) : Fault :=
  { f with asText := .malformed }

/-- A value as far as it could be read. -/
inductive Draft where
  | scalar (s : Scalar)
  | list (items : List Draft)
  | object (fields : List (Except Fault String × Draft))
  | faulty (fault : Fault)

mutual

def Json.draft : Json → Draft
  | .scalar s => .scalar s
  | .list items => .list (Json.draftItems items)
  | .object fields => .object (Json.draftFields fields)

def Json.draftItems : List Json → List Draft
  | [] => []
  | j :: rest => j.draft :: Json.draftItems rest

def Json.draftFields : List (String × Json) → List (Except Fault String × Draft)
  | [] => []
  | (name, j) :: rest => (.ok name, j.draft) :: Json.draftFields rest

end

/-! ## §2 Whole values -/

namespace Draft

mutual

/-- The value of a draft, or the first fault in it. -/
def value : Draft → Except TextFault Json
  | .scalar s => .ok (.scalar s)
  | .list items => .list <$> valueItems items
  | .object fields => .object <$> valueFields fields
  | .faulty f => .error f.wanted

def valueItems : List Draft → Except TextFault (List Json)
  | [] => .ok []
  | d :: rest => do
    let j ← d.value
    return j :: (← valueItems rest)

def valueFields : List (Except Fault String × Draft) → Except TextFault (List (String × Json))
  | [] => .ok []
  | (.error f, _) :: _ => .error f.wanted
  | (.ok name, d) :: rest => do
    let j ← d.value
    return (name, j) :: (← valueFields rest)

end

mutual

/-- The first fault in a draft that is passed over, if one stops even that. -/
def skipFault : Draft → Option TextFault
  | .scalar _ => none
  | .list items => skipItems items
  | .object fields => skipFields fields
  | .faulty f => f.skipped

/-- The first such fault in the items of a list. -/
def skipItems : List Draft → Option TextFault
  | [] => none
  | d :: rest => d.skipFault.or (skipItems rest)

/-- The first such fault in the fields of an object. -/
def skipFields : List (Except Fault String × Draft) → Option TextFault
  | [] => none
  | (.error f, d) :: rest => f.skipped.or (d.skipFault.or (skipFields rest))
  | (.ok _, d) :: rest => d.skipFault.or (skipFields rest)

end

end Draft

/-! ## §3 Typed reading -/

/-- Why a text or a value cannot be read as what it should be. -/
inductive ReadError where
  /-- The text is no JSON text. -/
  | text (fault : TextFault)
  /-- The value has the wrong shape. -/
  | shape
deriving Repr, DecidableEq

/-- A value of the right shape, if there is one. -/
def ReadError.orShape {α : Type} : Option α → Except ReadError α
  | some a => .ok a
  | none => .error .shape

namespace Draft

variable {α ρ : Type}

/-- A draft that is wanted whole, decoded by `decode`. -/
def whole (decode : Json → Option α) (d : Draft) : Except ReadError α := do
  let j ← d.value.mapError .text
  ReadError.orShape (decode j)

/-- A draft passed over. -/
def skip (d : Draft) : Except ReadError Unit :=
  match d.skipFault with
  | some f => .error (.text f)
  | none => .ok ()

/-- A scalar decoded by `decode`.  A list or an object is refused where it opens. -/
def scalarAs (decode : Scalar → Option α) : Draft → Except ReadError α
  | .scalar s => ReadError.orShape (decode s)
  | .faulty f => .error (.text f.wanted)
  | .list _ => .error .shape
  | .object _ => .error .shape

def text : Draft → Except ReadError String :=
  scalarAs fun
    | .text s => some s
    | _ => none

/-- A text that names one of several things. -/
def named (ofName? : String → Option α) : Draft → Except ReadError α :=
  scalarAs fun
    | .text s => ofName? s
    | _ => none

/-- Null, where something is needed that says nothing. -/
def nothing : Draft → Except ReadError Unit :=
  scalarAs fun
    | .null => some ()
    | _ => none

/-- The name of one of several things, in a place where nothing but a name can stand: a text, or the
    only field of an object, with null in it.  What starts like neither is as good as a wrong
    character, and so is whatever else stands in the object. -/
def choice (ofName? : String → Option α) : Draft → Except ReadError α
  | .scalar (.text s) => ReadError.orShape (ofName? s)
  | .object ((.ok name, d) :: rest) => do
    let a ← ReadError.orShape (ofName? name)
    d.nothing
    match rest with
    | [] => .ok a
    | (.error f, _) :: _ => .error (.text f.wanted)
    | (.ok _, _) :: _ => .error (.text .malformed)
  | .object ((.error f, _) :: _) => .error (.text f.wanted)
  | .faulty f => .error (.text f.asText)
  | _ => .error (.text .malformed)

/-- Null, or something read by `read`. -/
def orNull (read : Draft → Except ReadError α) : Draft → Except ReadError (Option α)
  | .scalar .null => .ok none
  | d => some <$> read d

/-- Items read one after the other. -/
def readItems (read : Draft → Except ReadError α) : List Draft → Except ReadError (List α)
  | [] => .ok []
  | d :: rest => do
    let a ← read d
    return a :: (← readItems read rest)

/-- A list whose items are read by `read`. -/
def items (read : Draft → Except ReadError α) : Draft → Except ReadError (List α)
  | .list ds => readItems read ds
  | .faulty f => .error (.text f.wanted)
  | _ => .error .shape

/-- Fields read one after the other into a record.  `field` says how a known field is read; a known
    field that comes twice is refused at its name, and an unknown field is passed over. -/
def readFields (field : ρ → String → Option (Draft → Except ReadError ρ)) (r : ρ)
    (seen : List String) : List (Except Fault String × Draft) → Except ReadError ρ
  | [] => .ok r
  | (.error f, _) :: _ => .error (.text f.wanted)
  | (.ok name, d) :: rest =>
    match field r name with
    | some read =>
      if seen.contains name then .error .shape
      else do
        let r ← read d
        readFields field r (name :: seen) rest
    | none => do
      d.skip
      readFields field r seen rest

/-- A record: an object whose fields are read by their names, or a list whose items are the fields
    that come first in `names`.  A list may break off early, and then the other fields are absent, but
    it may not go on. -/
def record (names : List String) (field : ρ → String → Option (Draft → Except ReadError ρ))
    (start : ρ) : Draft → Except ReadError ρ
  | .object fields => readFields field start [] fields
  | .list items => do
    let r ← readFields field start [] ((names.map .ok).zip items)
    match items.drop names.length with
    | [] => .ok r
    | .faulty f :: _ => .error (.text f.wanted)
    | _ => .error (.text .malformed)
  | .faulty f => .error (.text f.wanted)
  | .scalar _ => .error .shape

end Draft

end QueryPipeline
