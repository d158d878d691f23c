import QueryPipeline.Proofs.DocumentText
import QueryPipeline.Proofs.Filter.Direct

/-!
# Filter documents

A finished condition is the text of a document: a junction of two documents, or a predicate on one
field, perhaps negated.  `Expr.document?` builds the document of a condition by recursion, with the
column first, the operator mirrored where the column was on the right, and double negations gone.

The values of a document are of any type.  First they are the variables and constants of the
expression, then these with the placeholders they are compiled to, in the end what is written for
them.

## Main definitions

- `FilterDocument`: documents, with `render`, `map`, `fields` and `values`.
- `Expr.document?`: the document of a condition.
- `FilterDocument.numbered`: the document with its placeholders.
- `FilterDocument.condition`: the document as the compiler keeps it.
-/

namespace QueryPipeline

/-! ## §1 Documents and their text -/

/-- Filter documents with values in `α`. -/
inductive FilterDocument (α : Type) where
  /-- A comparison of one field with a value, which may be wrapped in an object identifier. -/
  | predicate (field : String) (negated : Bool) (op : CompareOp) (wrapped : Bool) (value : α)
  /-- Two documents joined. -/
  | junction (j : Junction) (left right : FilterDocument α)
deriving Repr, DecidableEq

namespace FilterDocument

variable {α β γ : Type}

/-- A text, or the document with one field around it. -/
def wrapIf (wrapped : Bool) (name value : String) : String :=
  if wrapped then spelled [(name, value)] else value

/-- The text of a comparison without its field. -/
def comparisonText (op : CompareOp) (wrapped : Bool) (value : String) : String :=
  spelled [(op.spelling, wrapIf wrapped "$oid" value)]

/-- The text of a document whose values are written by `text`. -/
def render (text : α → String) : FilterDocument α → String
  | predicate field negated op wrapped value =>
    spelled [(field, wrapIf negated "$not" (comparisonText op wrapped (text value)))]
  | junction j left right =>
    spelled [(j.spelling, "[" ++ left.render text ++ ", " ++ right.render text ++ "]")]

def map (f : α → β) : FilterDocument α → FilterDocument β
  | predicate field negated op wrapped value => predicate field negated op wrapped (f value)
  | junction j left right => junction j (left.map f) (right.map f)

def fields : FilterDocument α → List String
  | predicate field _ _ _ _ => [field]
  | junction _ left right => left.fields ++ right.fields

def values : FilterDocument α → List α
  | predicate _ _ _ _ value => [value]
  | junction _ left right => left.values ++ right.values

/-- The negation of a predicate; a junction has none. -/
def negate? : FilterDocument α → Option (FilterDocument α)
  | predicate field negated op wrapped value =>
    some (predicate field (!negated) op wrapped value)
  | junction _ _ _ => none

/-- Only the written values matter for the text. -/
theorem render_congr {f g : α → String} {d : FilterDocument α}
    (h : ∀ a ∈ d.values, f a = g a) : d.render f = d.render g := by
  induction d with
  | predicate field negated op wrapped value =>
    rw [render, render, h value (List.mem_singleton_self value)]
  | junction j left right ihl ihr =>
    rw [render, render, ihl fun a ha => h a (List.mem_append_left _ ha),
      ihr fun a ha => h a (List.mem_append_right _ ha)]

theorem render_map (f : α → β) (text : β → String) (d : FilterDocument α) :
    (d.map f).render text = d.render (text ∘ f) := by
  induction d with
  | predicate field negated op wrapped value => rfl
  | junction j left right ihl ihr => rw [map, render, render, ihl, ihr]

theorem values_map (f : α → β) (d : FilterDocument α) :
    (d.map f).values = d.values.map f := by
  induction d with
  | predicate field negated op wrapped value => rfl
  | junction j left right ihl ihr => rw [map, values, ihl, ihr, values, List.map_append]

theorem fields_map (f : α → β) (d : FilterDocument α) :
    (d.map f).fields = d.fields := by
  induction d with
  | predicate field negated op wrapped value => rfl
  | junction j left right ihl ihr => rw [map, fields, ihl, ihr, fields]

/-! ## §2 The document of a condition -/

end FilterDocument

/-- What an operand that is a variable or a constant is compiled to. -/
def Expr.entry? : Expr → Option PlaceholderEntry
  | .variable v => some (.variable v)
  | .constant value type => some (.literal value type)
  | _ => none

/-- The document of a condition.  The value `none` is the null of a null check. -/
def Expr.document? (idField : String) : Expr → Option (FilterDocument (Option PlaceholderEntry))
  | .and l r => do return .junction .and (← l.document? idField) (← r.document? idField)
  | .or l r => do return .junction .or (← l.document? idField) (← r.document? idField)
  | .not e => do (← e.document? idField).negate?
  | .compare op (.column c) value => do
    return .predicate c.field false op (c.field = idField) (some (← value.entry?))
  -- the column always comes first
  | .compare op value (.column c) => do
    return .predicate c.field false op.mirrored (c.field = idField) (some (← value.entry?))
  -- a null check is a comparison with null that is never wrapped
  | .isNull (.column c) => some (.predicate c.field false .eq false none)
  | _ => none

namespace FilterDocument

/-! ## §3 Placeholders -/

/-- The variables and constants of a document, from left to right. -/
def entries (d : FilterDocument (Option PlaceholderEntry)) : List PlaceholderEntry :=
  d.values.filterMap id

/-- A document with the placeholders its variables and constants get, from left to right. -/
def numbered (s : Sequence) :
    FilterDocument (Option PlaceholderEntry) → FilterDocument (Option (String × PlaceholderEntry))
  | predicate field negated op wrapped value =>
    predicate field negated op wrapped (value.map fun entry => (s.nameOf entry, entry))
  | junction j left right => junction j (left.numbered s) (right.numbered (s.advance left.entries))

/-- Placeholders are numbered in the order in which they stand in the document. -/
theorem values_numbered (s : Sequence) (d : FilterDocument (Option PlaceholderEntry)) :
    (d.numbered s).values.filterMap id = s.named d.entries := by
  induction d generalizing s with
  | predicate field negated op wrapped value => cases value <;> rfl
  | junction j left right ihl ihr =>
    -- the right document goes on where the left one ended
    have hentries : (junction j left right).entries = left.entries ++ right.entries :=
      List.filterMap_append
    rw [numbered, values, List.filterMap_append, ihl, ihr, hentries, Sequence.named_append]

/-- A placeholder keeps the variable or constant that it stands for. -/
theorem map_snd_numbered (s : Sequence) (d : FilterDocument (Option PlaceholderEntry)) :
    (d.numbered s).map (Option.map Prod.snd) = d := by
  induction d generalizing s with
  | predicate field negated op wrapped value => cases value <;> rfl
  | junction j left right ihl ihr => rw [numbered, map, ihl, ihr]

theorem fields_numbered (s : Sequence) (d : FilterDocument (Option PlaceholderEntry)) :
    (d.numbered s).fields = d.fields := by
  induction d generalizing s with
  | predicate field negated op wrapped value => rfl
  | junction j left right ihl ihr => rw [numbered, fields, fields, ihl, ihr]

/-! ## §4 Documents as conditions -/

/-- A document as the compiler keeps it: a predicate can still be negated, a junction is text. -/
def condition (text : α → String) : FilterDocument α → Condition
  | predicate field negated op wrapped value =>
    .field field (comparisonText op wrapped (text value)) negated
  | junction j left right => .compound ((junction j left right).render text)

@[simp] theorem render_condition (text : α → String) (d : FilterDocument α) :
    (d.condition text).render = d.render text := by
  cases d <;> rfl

theorem condition_junction (text : α → String) (j : Junction) (left right : FilterDocument α) :
    (junction j left right).condition text =
      .compound (FilterCompiler.junction j (left.condition text) (right.condition text)) := by
  rw [FilterCompiler.junction, render_condition, render_condition, j.document_eq_spelling]
  rfl

/-- What stands for a value while a clause is compiled: its placeholder, or null. -/
def nameText : Option (String × PlaceholderEntry) → String
  | some (name, _) => name
  | none => "null"

end FilterDocument

end QueryPipeline
