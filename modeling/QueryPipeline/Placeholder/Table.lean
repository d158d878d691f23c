import QueryPipeline.NameTable
import QueryPipeline.Run
import QueryPipeline.Segment

/-!
# Placeholder tables

While a clause is compiled, every variable and every constant is written as a numbered placeholder:
`var1`, `var2`, … for variables and `lit1`, `lit2`, … for constants.  When the clause is finished the
constants are written in place of their placeholders, and the variables stay to be bound later.

## Main definitions

- `Sequence`: the next free numbers.
- `PlaceholderTable`: the placeholders of one clause under compilation.
- `PlaceholderTable.finalize`: constants written out, variables kept.
- `Placeholders`: the variables that remain to be bound, by placeholder name.
- `Placeholders.absorb`: the placeholders of another clause taken in.
-/

namespace QueryPipeline

/-! ## §1 Numbering -/

/-- The next free numbers of the two kinds of placeholders. -/
structure Sequence where
  nextVariable : Nat := 1
  nextLiteral : Nat := 1
deriving Repr, DecidableEq

namespace Sequence

/-- The sequence after so many variables and literals have been numbered from the start. -/
def after (variableCount literalCount : Nat) : Sequence :=
  ⟨variableCount + 1, literalCount + 1⟩

def variableName (s : Sequence) : String :=
  "var" ++ toString s.nextVariable

def literalName (s : Sequence) : String :=
  "lit" ++ toString s.nextLiteral

end Sequence

/-! ## §2 Placeholders under compilation -/

/-- What a placeholder stands for. -/
inductive PlaceholderEntry where
  | variable (v : Variable)
  | literal (value : Value) (type : AttributeType)
deriving Repr, DecidableEq

def PlaceholderEntry.variable? : PlaceholderEntry → Option Variable
  | .variable v => some v
  | .literal _ _ => none

def PlaceholderEntry.literalText? : PlaceholderEntry → Option String
  | .variable _ => none
  | .literal value type => some (value.renderAs type)

/-- Variables that remain to be bound, by placeholder name. -/
abbrev Placeholders := NameTable Variable

/-- The placeholders of one clause under compilation. -/
structure PlaceholderTable where
  entries : NameTable PlaceholderEntry := .empty
  sequence : Sequence := {}

namespace PlaceholderTable

/-- The table that starts numbering at a given sequence. -/
def startingAt (s : Sequence) : PlaceholderTable :=
  { sequence := s }

/-- A fresh placeholder for a variable. -/
def allocateVariable (t : PlaceholderTable) (v : Variable) : String × PlaceholderTable :=
  let name := t.sequence.variableName
  (name,
    { entries := t.entries.insert name (.variable v)
      sequence := { t.sequence with nextVariable := t.sequence.nextVariable + 1 } })

/-- A fresh placeholder for a literal. -/
def allocateLiteral (t : PlaceholderTable) (value : Value) (type : AttributeType) :
    String × PlaceholderTable :=
  let name := t.sequence.literalName
  (name,
    { entries := t.entries.insert name (.literal value type)
      sequence := { t.sequence with nextLiteral := t.sequence.nextLiteral + 1 } })

/-- The text that a name of the table is replaced by when the clause is finished. -/
def literalText? (t : PlaceholderTable) (name : String) : Option String :=
  (t.entries.get? name).bind PlaceholderEntry.literalText?

/-- A fragment with the literals written out. -/
def inline (t : PlaceholderTable) (fragment : String) : String :=
  Id.run (substitute (fun name => pure (t.literalText? name)) fragment)

/-- The variables of the table, which remain to be bound. -/
def remaining (t : PlaceholderTable) : Placeholders :=
  t.entries.filterMap PlaceholderEntry.variable?

/-- A fragment with the literals written out, and the variables that remain to be bound. -/
def finalize (t : PlaceholderTable) (fragment : String) : String × Placeholders :=
  (t.inline fragment, t.remaining)

end PlaceholderTable

/-! ## §3 Joining clauses -/

/-- Entries taken in one after the other, up to the first name that is there already. -/
def Placeholders.absorbEntries : List (String × Variable) → Run Placeholders Unit
  | [] => pure ()
  | (name, v) :: rest => do
    if (← get).contains name then
      throw (.internal (.sharedPlaceholder name))
    modify fun t => t.insert name v
    absorbEntries rest

/-- The placeholders of another clause of the same query taken in, in order of their names.
    What was taken in before a shared name stays. -/
def Placeholders.absorb (other : Placeholders) : Run Placeholders Unit :=
  absorbEntries other.entries

end QueryPipeline
