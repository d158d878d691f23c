import QueryPipeline.Proofs.Filter.Grammar
import QueryPipeline.Proofs.Fragment.Scan

/-!
# Writing out the literals of a filter

A finished filter is its document with the constants written out and the variables left as
placeholders.  The constants are found by scanning the text of the document, and the scan meets the
placeholders of the document and nothing else, as long as no field has a quote in its name.

## Main statements

- `FilterDocument.replaceNames_render`, `FilterDocument.visibleNames_render`: scanning a document is
  scanning its values.
- `FilterCompiler.fragment_of_compile`: what a finished filter is.
- `FilterCompiler.get?_placeholders_of_compile`: which variables remain, and under which names.
-/

namespace QueryPipeline

/-! ## §1 Scanning documents -/

namespace FilterDocument

theorem quoteFree_compareOp (op : CompareOp) : QuoteFree op.spelling := by
  cases op <;> decide

theorem quoteFree_junction (j : Junction) : QuoteFree j.spelling := by
  cases j <;> decide

theorem transparent_wrapIf (wrapped : Bool) {name : String} (h : QuoteFree name) :
    Transparent (wrapIf wrapped name) := by
  cases wrapped with
  | false => exact transparent_id
  | true => exact transparent_singleton h

/-- Around its value a predicate shows nothing of its own. -/
theorem transparent_predicate {field : String} (h : QuoteFree field) (negated : Bool)
    (op : CompareOp) (wrapped : Bool) :
    Transparent fun value =>
      singleton field (wrapIf negated "$not" (comparisonText op wrapped value)) := by
  -- three layers: the operator, perhaps a negation, and the field
  have hcomparison : Transparent (comparisonText op wrapped) :=
    (transparent_singleton (quoteFree_compareOp op)).comp (transparent_wrapIf wrapped (by decide))
  have hnot : Transparent (wrapIf negated "$not") := transparent_wrapIf negated (by decide)
  exact (transparent_singleton h).comp (hnot.comp hcomparison)

variable {α : Type} {text : α → String} {d : FilterDocument α}

theorem balanced_render (hfields : ∀ field ∈ d.fields, QuoteFree field)
    (hvalues : ∀ a ∈ d.values, Balanced (text a)) : Balanced (d.render text) := by
  induction d with
  | predicate field negated op wrapped value =>
    have hfield := hfields field (List.mem_singleton_self field)
    exact (transparent_predicate hfield negated op wrapped).balanced
      (hvalues value (List.mem_singleton_self value))
  | junction j left right ihl ihr =>
    -- the fields and the values of a junction are those of its two documents
    obtain ⟨hfieldsLeft, hfieldsRight⟩ := List.forall_mem_append.1 hfields
    obtain ⟨hvaluesLeft, hvaluesRight⟩ := List.forall_mem_append.1 hvalues
    exact balanced_singleton (quoteFree_junction j)
      (balanced_pair (ihl hfieldsLeft hvaluesLeft) (ihr hfieldsRight hvaluesRight))

/-- **Replacing names in a document** replaces them in its values. -/
theorem replaceNames_render (replace : String → Option String)
    (hfields : ∀ field ∈ d.fields, QuoteFree field)
    (hvalues : ∀ a ∈ d.values, Balanced (text a)) :
    replaceNames replace (d.render text) = d.render fun a => replaceNames replace (text a) := by
  induction d with
  | predicate field negated op wrapped value =>
    have hfield := hfields field (List.mem_singleton_self field)
    exact (transparent_predicate hfield negated op wrapped).replaceNames replace
      (hvalues value (List.mem_singleton_self value))
  | junction j left right ihl ihr =>
    obtain ⟨hfieldsLeft, hfieldsRight⟩ := List.forall_mem_append.1 hfields
    obtain ⟨hvaluesLeft, hvaluesRight⟩ := List.forall_mem_append.1 hvalues
    have hleft := balanced_render hfieldsLeft hvaluesLeft
    have hright := balanced_render hfieldsRight hvaluesRight
    rw [render, ← singleton_eq_spelled,
      replaceNames_singleton replace (quoteFree_junction j) (balanced_pair hleft hright),
      replaceNames_pair replace hleft hright, ihl hfieldsLeft hvaluesLeft,
      ihr hfieldsRight hvaluesRight, singleton_eq_spelled, render]

/-- **The visible names of a document** are those of its values, from left to right. -/
theorem visibleNames_render (hfields : ∀ field ∈ d.fields, QuoteFree field)
    (hvalues : ∀ a ∈ d.values, Balanced (text a)) :
    visibleNames (d.render text) = d.values.flatMap fun a => visibleNames (text a) := by
  induction d with
  | predicate field negated op wrapped value =>
    have hfield := hfields field (List.mem_singleton_self field)
    rw [values, List.flatMap_singleton]
    exact (transparent_predicate hfield negated op wrapped).visibleNames
      (hvalues value (List.mem_singleton_self value))
  | junction j left right ihl ihr =>
    obtain ⟨hfieldsLeft, hfieldsRight⟩ := List.forall_mem_append.1 hfields
    obtain ⟨hvaluesLeft, hvaluesRight⟩ := List.forall_mem_append.1 hvalues
    have hleft := balanced_render hfieldsLeft hvaluesLeft
    have hright := balanced_render hfieldsRight hvaluesRight
    rw [render, ← singleton_eq_spelled,
      visibleNames_singleton (quoteFree_junction j) (balanced_pair hleft hright),
      visibleNames_pair hleft hright, ihl hfieldsLeft hvaluesLeft, ihr hfieldsRight hvaluesRight,
      values, List.flatMap_append]

/-! ## §2 Literals written out -/

/-- What stands for a value in a finished filter: variables keep their placeholders, constants are
    written as their types say. -/
def finalText : Option (String × PlaceholderEntry) → String
  | some (name, .variable _) => name
  | some (_, .literal value type) => value.renderAs type
  | none => "null"

variable {sequence : Sequence} {d : FilterDocument (Option PlaceholderEntry)}

/-- A placeholder of a document is one that was given out for it. -/
theorem mem_named_of_mem_values {name : String} {entry : PlaceholderEntry}
    (h : some (name, entry) ∈ (d.numbered sequence).values) :
    (name, entry) ∈ sequence.named d.entries := by
  rw [← values_numbered]
  exact List.mem_filterMap.2 ⟨_, h, rfl⟩

/-- While a clause is compiled, a name stands for every value. -/
theorem isName_nameText {a : Option (String × PlaceholderEntry)}
    (h : a ∈ (d.numbered sequence).values) : IsName (nameText a) := by
  cases a with
  | none => exact ⟨⟨'n', by decide, rfl⟩, by decide⟩
  | some named =>
    obtain ⟨name, entry⟩ := named
    obtain ⟨n, _, hname⟩ := Sequence.exists_number_of_mem_named (mem_named_of_mem_values h)
    rw [nameText, hname]
    exact isName_placeholderName entry n

/-- Writing out the literals replaces the placeholders of constants and no others. -/
theorem replaceNames_nameText {a : Option (String × PlaceholderEntry)}
    (h : a ∈ (d.numbered sequence).values) :
    replaceNames ((PlaceholderTable.startingAt sequence).extend d.entries).literalText?
      (nameText a) = finalText a := by
  rw [(isName_nameText h).replaceNames_eq, PlaceholderTable.literalText?]
  cases a with
  | none =>
    -- null is not in the table
    cases hnull : ((PlaceholderTable.startingAt sequence).extend d.entries).entries.get? "null" with
    | none => simp [nameText, finalText, hnull]
    | some entry =>
      have hin := PlaceholderTable.get?_extend_startingAt.1 hnull
      obtain ⟨n, _, hname⟩ := Sequence.exists_number_of_mem_named hin
      exact absurd hname (ne_placeholderName (by decide) entry n)
  | some named =>
    obtain ⟨name, entry⟩ := named
    -- its own entry decides whether it is written out
    have hget := PlaceholderTable.get?_extend_startingAt.2 (mem_named_of_mem_values h)
    rw [nameText, hget]
    cases entry <;> rfl

end FilterDocument

/-! ## §3 Finished filters -/

namespace FilterCompiler

variable {config : Config} {clause : FilterClause} {sequence : Sequence} {e : Expr}
  {compiled : CompiledFragment}

theorem CompilesTo.quoteFree_fields {idField : String}
    {d : FilterDocument (Option PlaceholderEntry)} (h : CompilesTo clause idField e d)
    (hcolumns : ∀ c ∈ e.columns, QuoteFree c.field) :
    ∀ field ∈ (d.numbered sequence).fields, QuoteFree field := by
  intro field hfield
  rw [FilterDocument.fields_numbered, h.fields] at hfield
  obtain ⟨c, hc, rfl⟩ := List.mem_map.1 hfield
  exact hcolumns c hc

/-- **A finished filter is its document**, with the constants written out and a placeholder for
    every variable. -/
theorem fragment_of_compile
    (h : (start config clause sequence).compile e = .ok compiled)
    (hcolumns : ∀ c ∈ e.columns, QuoteFree c.field) :
    ∃ d, CompilesTo clause config.idField e d ∧
      compiled.fragment = (d.numbered sequence).render FilterDocument.finalText := by
  obtain ⟨d, hd, hfragment, _⟩ := compile_eq_ok h
  refine ⟨d, hd, ?_⟩
  have hbalanced : ∀ a ∈ (d.numbered sequence).values, Balanced (FilterDocument.nameText a) :=
    fun a ha => (FilterDocument.isName_nameText ha).balanced
  rw [hfragment, PlaceholderTable.inline_eq, ← hd.entries,
    FilterDocument.replaceNames_render _ (hd.quoteFree_fields hcolumns) hbalanced]
  exact FilterDocument.render_congr fun a ha => FilterDocument.replaceNames_nameText ha

/-- **The variables of a finished filter** remain under the placeholders they were given. -/
theorem get?_placeholders_of_compile
    (h : (start config clause sequence).compile e = .ok compiled) {name : String} {v : Variable} :
    compiled.placeholders.get? name = some v ↔ (name, .variable v) ∈ sequence.named e.entries := by
  obtain ⟨_, _, _, hnumbered⟩ := compile_eq_ok h
  exact hnumbered.get?_placeholders

end FilterCompiler

end QueryPipeline
