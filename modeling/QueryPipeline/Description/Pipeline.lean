import QueryPipeline.Description.Expr
import QueryPipeline.Stage

/-!
# Descriptions of pipelines

A pipeline is described by its stages in order, each an object with the name of the stage, and by the
variables that remain to be bound, in order of their placeholders.
-/

namespace QueryPipeline

def Stage.body : Stage → Json
  | matching body => .text body
  | group body => .text body
  | project body => .text body
  | having body => .text body
  | sort body => .text body
  | skip n => .int n.toNat
  | limit n => .int n.toNat

def Stage.toJson (s : Stage) : Json :=
  .object [(s.name, s.body)]

/-- The description of a variable that remains to be bound. -/
def Variable.toJson (v : Variable) : Json :=
  .object [("variable_id", .optionalText v.id), ("source_id", .optionalText v.source),
    ("field", .text v.field), ("type", .text v.type.name)]

def Pipeline.toJson (p : Pipeline) : Json :=
  .object [("stages", .list (p.stages.map Stage.toJson)),
    ("placeholders", .object (p.placeholders.entries.map fun e => (e.1, e.2.toJson)))]

end QueryPipeline
