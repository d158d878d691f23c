import QueryPipeline.Config
import QueryPipeline.FieldList
import QueryPipeline.Operator
import QueryPipeline.Projection
import QueryPipeline.Stage

/-!
# Documents as they are spelled

What a store reads is text, so statements about stages and filters are about texts.  Documents are
spelled here once more, character by character and operator by operator, without the functions that
write them; those are shown to spell them so.

## Main definitions

- `spelled`: a document with the given fields.
- `CompareOp.spelling`, `Junction.spelling`: the operators of filter documents.
- `SortOrder.spelling`: the directions of sort documents.
- `Aggregate.spelling`, `Fallback.spelling`, `Projection.spelling`: outputs.

## Main statements

- `document_eq_spelled`, `singleton_eq_spelled`, `FieldList.render_eq_spelled`: documents are written
  as they are spelled.
- `CompareOp.document_eq_spelling`, `Junction.document_eq_spelling`,
  `SortOrder.toString_direction_eq_spelling`: so are operators and directions.
- `Projection.render_eq_spelling`: so are outputs.
-/

namespace QueryPipeline

/-! ## §1 Fields -/

/-- A document: fields in braces with commas between them, each name in single quotes before its
    value. -/
def spelled (fields : List (String × String)) : String :=
  "\x7b" ++ ", ".intercalate (fields.map fun f => "'" ++ f.1 ++ "': " ++ f.2) ++ "\x7d"

theorem document_eq_spelled (fields : List (String × String)) : document fields = spelled fields :=
  rfl

theorem singleton_eq_spelled (name value : String) :
    singleton name value = spelled [(name, value)] :=
  rfl

theorem FieldList.render_eq_spelled (l : FieldList) : l.render = spelled l.fields :=
  rfl

/-! ## §2 Operators and directions -/

/-- The operator that filter documents compare with. -/
def CompareOp.spelling : CompareOp → String
  | eq => "$eq"
  | ne => "$ne"
  | lt => "$lt"
  | le => "$lte"
  | gt => "$gt"
  | ge => "$gte"

theorem CompareOp.document_eq_spelling (op : CompareOp) : op.document = op.spelling := by
  cases op <;> rfl

/-- The operator that joins filter documents. -/
def Junction.spelling : Junction → String
  | and => "$and"
  | or => "$or"

theorem Junction.document_eq_spelling (j : Junction) : j.document = j.spelling := by
  cases j <;> rfl

/-- The direction that sort documents give a key. -/
def SortOrder.spelling : SortOrder → String
  | asc => "1"
  | desc => "-1"

theorem SortOrder.toString_direction_eq_spelling (order : SortOrder) :
    toString order.direction = order.spelling := by
  cases order <;> rfl

/-! ## §3 Outputs -/

/-- The operator of an aggregate. -/
def Aggregate.spelling : Aggregate → String
  | sum => "$sum"
  | avg => "$avg"
  | min => "$min"
  | max => "$max"

theorem Aggregate.operator_eq_spelling (f : Aggregate) : f.operator = f.spelling := by
  cases f <;> rfl

/-- The operator that takes one value out of a group. -/
def Fallback.spelling : Fallback → String
  | first => "$first"
  | last => "$last"

theorem Fallback.operator_eq_spelling (f : Fallback) : f.operator = f.spelling := by
  cases f <;> rfl

/-- An output: a column by its path, a constant as it is, a variable masked, an aggregate around its
    argument. -/
def Projection.spelling : Projection → String
  | column field => "'$" ++ field ++ "'"
  | constant text => spelled [("$literal", text)]
  | masked => spelled [("$literal", "'?'")]
  | aggregate f argument => spelled [(f.spelling, argument.spelling)]

theorem Projection.render_eq_spelling (p : Projection) : p.render = p.spelling := by
  induction p with
  | column field => rfl
  | constant text => rfl
  | masked => rfl
  | aggregate f argument ih =>
    rw [render, spelling, f.operator_eq_spelling, ih, singleton_eq_spelled]

end QueryPipeline
