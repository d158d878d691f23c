/-!
# Segments of a fragment

Placeholders are bare words of a fragment.  To find them, a fragment is cut into segments: a maximal
run of word characters outside single quotes is one segment, every other character is a segment of
its own.  A quote opens or closes a quoted region wherever it stands, for there are no escapes.

## Main definitions

- `Segment.scan`: the segments of a text.
- `Segment.name?`: the name a segment can stand for, if it is a run that starts like a name.
- `substitute`: a text with names replaced, in any monad.
-/

namespace QueryPipeline

/-- Characters that names are made of. -/
def isWordChar (c : Char) : Bool :=
  c.isAlphanum || c == '_'

/-- Characters that a name starts with. -/
def isNameStart (c : Char) : Bool :=
  c.isAlpha || c == '_'

/-- A piece of a fragment. -/
inductive Segment where
  /-- A character that belongs to no run: inside quotes, a quote, or no word character. -/
  | plain (c : Char)
  /-- A maximal run of word characters outside quotes. -/
  | run (cs : List Char)
deriving Repr, DecidableEq

namespace Segment

def chars : Segment → List Char
  | plain c => [c]
  | run cs => cs

def text (s : Segment) : String :=
  String.ofList s.chars

/-- The name a segment can stand for.  A run that starts with a digit is a number. -/
def name? : Segment → Option String
  | plain _ => none
  | run [] => none
  | run (c :: cs) => if isNameStart c then some (String.ofList (c :: cs)) else none

/-- A word character put in front of segments: it joins a run that follows at once. -/
def extend (c : Char) : List Segment → List Segment
  | run cs :: rest => run (c :: cs) :: rest
  | rest => run [c] :: rest

/-- The segments of a text that starts inside quotes or outside of them. -/
def scan (quoted : Bool) : List Char → List Segment
  | [] => []
  | c :: cs =>
    if c = '\'' then plain c :: scan (!quoted) cs
    else if quoted || !isWordChar c then plain c :: scan quoted cs
    else extend c (scan quoted cs)

/-- The segments of a fragment. -/
def ofText (text : String) : List Segment :=
  scan false text.toList

/-- Putting a character in front adds it to the text. -/
theorem flatMap_chars_extend (c : Char) (l : List Segment) :
    (extend c l).flatMap chars = c :: l.flatMap chars := by
  match l with
  | [] => rfl
  | plain _ :: _ => rfl
  | run _ :: _ => rfl

/-- Cutting loses nothing: the segments written one after the other are the text. -/
theorem flatMap_chars_scan (quoted : Bool) (cs : List Char) :
    (scan quoted cs).flatMap chars = cs := by
  induction cs generalizing quoted with
  | nil => rfl
  | cons c cs ih =>
    unfold scan
    split
    · -- a quote
      simp [chars, ih]
    · split
      · -- quoted text, or a character between words
        simp [chars, ih]
      · -- a word character
        rw [flatMap_chars_extend, ih]

end Segment

/-- The names a fragment shows outside quotes, in order. -/
def visibleNames (text : String) : List String :=
  (Segment.ofText text).filterMap Segment.name?

/-- A fragment with each visible name replaced as `replace` says; a name without a replacement
    stays.  Replacement texts are not looked into again. -/
def substitute {m : Type → Type} [Monad m] (replace : String → m (Option String))
    (text : String) : m String := do
  let pieces ← (Segment.ofText text).mapM fun s =>
    match s.name? with
    | none => pure s.text
    | some name => do
      match ← replace name with
      | some replacement => pure replacement
      | none => pure s.text
  return String.join pieces

end QueryPipeline
