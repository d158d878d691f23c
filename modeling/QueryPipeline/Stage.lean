import QueryPipeline.DocumentText
import QueryPipeline.Placeholder.Resolver

/-!
# Stages and pipelines

A compiled query is a list of stages together with the placeholders that occur in them.  The stage of
a HAVING clause is written like any other match stage, but it keeps its name.
-/

namespace QueryPipeline

/-- The order of a sort key. -/
inductive SortOrder where
  | asc
  | desc
deriving Repr, DecidableEq

namespace SortOrder

def all : List SortOrder :=
  [asc, desc]

def name : SortOrder → String
  | asc => "asc"
  | desc => "desc"

def ofName? (s : String) : Option SortOrder :=
  all.find? (·.name == s)

@[simp] theorem ofName?_name (order : SortOrder) : ofName? order.name = some order := by
  cases order <;> rfl

def direction : SortOrder → Int
  | asc => 1
  | desc => -1

end SortOrder

/-- One step of a pipeline. -/
inductive Stage where
  /-- The filter of the WHERE clause. -/
  | matching (body : String)
  | group (body : String)
  | project (body : String)
  /-- The filter of the HAVING clause, on output names. -/
  | having (body : String)
  | sort (body : String)
  | skip (count : UInt64)
  | limit (count : UInt64)
deriving Repr, DecidableEq

namespace Stage

def name : Stage → String
  | matching _ => "match"
  | group _ => "group"
  | project _ => "project"
  | having _ => "having"
  | sort _ => "sort"
  | skip _ => "skip"
  | limit _ => "limit"

def render : Stage → String
  | matching body => singleton "$match" body
  | group body => singleton "$group" body
  | project body => singleton "$project" body
  | having body => singleton "$match" body
  | sort body => singleton "$sort" body
  | skip n => singleton "$skip" (toString n.toNat)
  | limit n => singleton "$limit" (toString n.toNat)

end Stage

/-- The stages of a compiled query, and the variables that remain to be bound in them. -/
structure Pipeline where
  stages : List Stage := []
  placeholders : Placeholders := .empty

namespace Pipeline

/-- The texts of the stages, with placeholders left in place. -/
def render (p : Pipeline) : List String :=
  p.stages.map Stage.render

/-- The texts of the stages with the supplied values written in.  Each placeholder must be bound in
    at least one stage. -/
def resolve (p : Pipeline) (b : Bindings) : Except CompileError (List String) :=
  p.placeholders.resolveAll b p.render

end Pipeline

end QueryPipeline
