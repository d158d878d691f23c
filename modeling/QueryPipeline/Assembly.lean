import QueryPipeline.Config
import QueryPipeline.FieldList
import QueryPipeline.Projection
import QueryPipeline.Stage

/-!
# Assembly of compiled clauses

The compiled clauses of a query become stages in a fixed order: match, group, project, having, sort,
skip, limit.  A clause that is absent gives no stage.  The assignments of an update become one `$set`
document.

## Main definitions

- `Selection`: the compiled clauses of a query.
- `groupBody`, `projectBody`: the bodies of the two stages that depend on the grouping keys.
- `Selection.assemble`: the pipeline of a selection.
- `Update`, `Update.assemble`: the document of an update.
-/

namespace QueryPipeline

/-! ## §1 Selections -/

structure OutputAttribute where
  name : String
  projection : Projection
deriving Repr, DecidableEq

/-- A sort key on an output name. -/
structure SortKey where
  field : String
  order : SortOrder
deriving Repr, DecidableEq

/-- The compiled clauses of a query. -/
structure Selection where
  filter : Option CompiledFragment := none
  attributes : List OutputAttribute := []
  /-- The columns to group by. -/
  groupBy : List String := []
  having : Option CompiledFragment := none
  orderBy : List SortKey := []
  offset : Option UInt64 := none
  limit : Option UInt64 := none

/-! ## §2 Grouping -/

/-- The field that holds the grouping key. -/
def groupKeyField : String := "_id"

/-- The grouping key: one column stands by itself, several make a document by column name. -/
def groupKey : List String → String
  | [key] => fieldPath key
  | keys => (FieldList.ofList (keys.map fun k => (k, fieldPath k))).render

/-- Whether an output is a bare grouping column. -/
def isGroupKey (keys : List String) (p : Projection) : Bool :=
  match p.column? with
  | some field => keys.contains field
  | none => false

/-- The accumulator of an output that is no grouping column. -/
def accumulator (config : Config) (p : Projection) : String :=
  if p.isAggregate then p.render else singleton config.fallback.operator p.render

/-- The accumulators of the outputs, up to one that would take the place of the grouping key. -/
def accumulators (config : Config) (keys : List String) :
    List OutputAttribute → Except CompileError (List (String × String))
  | [] => .ok []
  | a :: rest =>
    if isGroupKey keys a.projection then accumulators config keys rest
    else if a.name = groupKeyField then .error (.unsupportedOperation .groupKeyCollision)
    else do
      let others ← accumulators config keys rest
      return (a.name, accumulator config a.projection) :: others

def groupFields (config : Config) (keys : List String) (attributes : List OutputAttribute) :
    Except CompileError FieldList := do
  let entries ← accumulators config keys attributes
  return .ofList ((groupKeyField, groupKey keys) :: entries)

/-! ## §3 Projecting -/

/-- Where the project stage finds an output.  Without grouping it computes the output itself; after
    grouping a key comes out of the grouping key, and anything else has been accumulated. -/
def projectValue (keys : List String) (a : OutputAttribute) : String :=
  if keys.isEmpty then a.projection.render
  else
    match a.projection.column? with
    | some field =>
      if keys = [field] then fieldPath groupKeyField
      else if keys.contains field then fieldPath (groupKeyField ++ "." ++ field)
      else fieldPath a.name
    | none => fieldPath a.name

/-- The fields of the project stage, which drops the grouping key unless an output takes its name. -/
def projectFields (keys : List String) (attributes : List OutputAttribute) : FieldList :=
  .ofList ((groupKeyField, "0") :: attributes.map fun a => (a.name, projectValue keys a))

def sortFields (keys : List SortKey) : FieldList :=
  .ofList (keys.map fun k => (k.field, toString k.order.direction))

/-! ## §4 The pipeline of a selection -/

/-- One stage for a clause that is there, none for one that is not. -/
def stageOf {α : Type} (clause : Option α) (stage : α → Stage) : List Stage :=
  (clause.map stage).toList

/-- The stages of a selection, in their fixed order. -/
def Selection.stages (config : Config) (s : Selection) : Except CompileError (List Stage) := do
  let group ←
    if s.groupBy.isEmpty then pure []
    else do
      let fields ← groupFields config s.groupBy s.attributes
      pure [Stage.group fields.render]
  let project :=
    if s.attributes.isEmpty then [] else [Stage.project (projectFields s.groupBy s.attributes).render]
  let sort := if s.orderBy.isEmpty then [] else [Stage.sort (sortFields s.orderBy).render]
  return stageOf s.filter (fun c => .matching c.fragment) ++ group ++ project
    ++ stageOf s.having (fun c => .having c.fragment) ++ sort
    ++ stageOf s.offset .skip ++ stageOf s.limit .limit

/-- The placeholders of a clause taken in, if the clause is there. -/
def absorbClause : Option CompiledFragment → Run Placeholders Unit
  | some c => Placeholders.absorb c.placeholders
  | none => pure ()

/-- The pipeline of a selection.  The placeholders of the filter are taken in before the stages are
    written, those of the HAVING clause after. -/
def Selection.assemble (config : Config) (s : Selection) : Except CompileError Pipeline :=
  (do
    absorbClause s.filter
    -- a grouping fault comes before a placeholder that both clauses share
    let stages ← Run.lift (s.stages config)
    absorbClause s.having
    return { stages, placeholders := ← get } : Run Placeholders Pipeline).eval .empty

/-! ## §5 Updates -/

/-- The document of an update, and the variables that remain to be bound in it. -/
structure Update where
  fragment : String
  placeholders : Placeholders

/-- The document with the supplied values written in. -/
def Update.resolve (u : Update) (b : Bindings) : Except CompileError String :=
  u.placeholders.resolve b u.fragment

/-- The document of compiled assignments.  A column assigned twice keeps its last value. -/
def Update.assemble (assignments : List (String × CompiledFragment)) :
    Except CompileError Update :=
  if assignments.isEmpty then .error (.unsupportedOperation .emptyUpdate)
  else
    (do
      assignments.forM fun a => Placeholders.absorb a.2.placeholders
      let fields := FieldList.ofList (assignments.map fun a => (a.1, a.2.fragment))
      return { fragment := singleton "$set" fields.render, placeholders := ← get } :
      Run Placeholders Update).eval .empty

end QueryPipeline
