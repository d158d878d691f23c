/-!
# Compiler configuration

Two choices are open to the caller: which field holds object identifiers, and which accumulator a
grouped query uses for an output that is neither a grouping key nor an aggregate.
-/

namespace QueryPipeline

/-- The accumulator of a grouped output that is neither a key nor an aggregate. -/
inductive Fallback where
  | first
  | last
deriving Repr, DecidableEq

namespace Fallback

def all : List Fallback :=
  [first, last]

def name : Fallback → String
  | first => "first"
  | last => "last"

def ofName? (s : String) : Option Fallback :=
  all.find? (·.name == s)

/-- The accumulator's operator in group stages. -/
def operator : Fallback → String
  | first => "$first"
  | last => "$last"

end Fallback

/-- What a compilation depends on besides the query. -/
structure Config where
  /-- Comparisons on this field go through object identifiers. -/
  idField : String := "_id"
  fallback : Fallback := .first
deriving Repr, DecidableEq

end QueryPipeline
