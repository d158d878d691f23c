import QueryPipeline.Proofs.Fragment.Resolution
import QueryPipeline.Proofs.Fragment.ValueText
import QueryPipeline.Proofs.Placeholder.Clause

/-!
# Finished clauses as templates

A finished clause is a template if it shows each of its placeholders and nothing that looks like
another one.  Once every variable has a value, resolving a template writes a text that does not
depend on how the placeholders were numbered; and it writes the same text if other clauses share the
table of placeholders.

## Main definitions

- `CompiledFragment.IsTemplate`: templates, with the text that is written in the end.
- `Placeholders.Numbered`: tables that hold numbered placeholders only.

## Main statements

- `CompiledFragment.IsTemplate.resolve_eq_ok_iff`: resolving one clause.
- `CompiledFragment.IsTemplate.replaceNames_eq`: one clause among several.
- `Placeholders.supplied_joinedAll_iff`: what several clauses need.
-/

namespace QueryPipeline

/-! ## §1 One clause -/

/-- A finished clause of an expression that shows its placeholders and nothing that looks like
    another one.  With the values `b` the text `bound b` is written. -/
structure CompiledFragment.IsTemplate (c : CompiledFragment) (s : Sequence) (e : Expr)
    (bound : Bindings → String) : Prop extends c.NumberedFrom s e where
  balanced : Balanced c.fragment
  shows : ∀ name ∈ c.placeholders.names, name ∈ visibleNames c.fragment
  others : ∀ name ∈ visibleNames c.fragment, name ∉ c.placeholders.names →
    ∀ entry n, name ≠ placeholderName entry n
  writes : ∀ b, (∀ v ∈ e.vars, b.contains v.key) →
    replaceNames (Resolver.fresh c.placeholders b).valueText? c.fragment = bound b

/-- Tables that hold numbered placeholders only. -/
def Placeholders.Numbered (p : Placeholders) : Prop :=
  ∀ name ∈ p.names, ∃ entry n, name = placeholderName entry n

theorem Placeholders.numbered_of_issued {p : Placeholders} {s t : Sequence}
    (h : ∀ name ∈ p.names, s.Issued t name) : p.Numbered := by
  intro name hname
  obtain ⟨n, _, _, heq⟩ := h name hname
  exact ⟨.variable { field := "", type := .object }, n, heq⟩

theorem Placeholders.Numbered.get?_eq_none {p : Placeholders} (h : p.Numbered) {name : String}
    (hname : ∀ entry n, name ≠ placeholderName entry n) : p.get? name = none := by
  rw [Option.eq_none_iff_forall_ne_some]
  intro v hv
  obtain ⟨entry, n, heq⟩ := h name (p.mem_names_of_get? hv)
  exact hname entry n heq

/-- A text without placeholders is left alone. -/
theorem ShowsNoPlaceholder.replaceNames_eq_self {text : String} (h : ShowsNoPlaceholder text)
    {p : Placeholders} (hp : p.Numbered) (b : Bindings) :
    replaceNames (Resolver.fresh p b).valueText? text = text := by
  apply QueryPipeline.replaceNames_eq_self
  intro name hname
  rw [Resolver.valueText?, hp.get?_eq_none (h.ne_placeholder name hname)]
  rfl

namespace CompiledFragment

variable {c : CompiledFragment} {s : Sequence} {e : Expr} {bound : Bindings → String}
  {b : Bindings} {text : String}

theorem NumberedFrom.numbered (h : c.NumberedFrom s e) : c.placeholders.Numbered :=
  Placeholders.numbered_of_issued fun _ hname => h.issued hname

theorem NumberedFrom.supplied_iff (h : c.NumberedFrom s e) :
    c.placeholders.Supplied b ↔ ∀ v ∈ e.vars, b.contains v.key :=
  h.forall_get?_iff

theorem NumberedFrom.names_eq_nil_iff (h : c.NumberedFrom s e) :
    c.placeholders.names = [] ↔ e.vars = [] := by
  have hnone := h.forall_get?_iff (motive := fun _ => False)
  rw [List.eq_nil_iff_forall_not_mem, List.eq_nil_iff_forall_not_mem, ← hnone]
  constructor
  · intro hnames name v hv
    exact hnames name (c.placeholders.mem_names_of_get? hv)
  · intro hget name hname
    obtain ⟨v, hv⟩ := c.placeholders.exists_get?_of_mem_names hname
    exact hget name v hv

namespace IsTemplate

variable (h : c.IsTemplate s e bound)

include h

/-- **Resolving a template** succeeds exactly if every variable has a value. -/
theorem resolve_eq_ok_iff :
    c.resolve b = .ok text ↔ (∀ v ∈ e.vars, b.contains v.key) ∧ text = bound b := by
  rw [CompiledFragment.resolve, Placeholders.resolve_eq_ok_iff, h.supplied_iff]
  constructor
  · rintro ⟨_, hsupplied, rfl⟩
    exact ⟨hsupplied, h.writes b hsupplied⟩
  · rintro ⟨hsupplied, rfl⟩
    exact ⟨h.shows, hsupplied, (h.writes b hsupplied).symm⟩

/-- A placeholder that a clause shows is one of its own. -/
theorem mem_names {name : String} (hname : name ∈ visibleNames c.fragment)
    (hplaceholder : ∃ entry n, name = placeholderName entry n) : name ∈ c.placeholders.names := by
  obtain ⟨entry, n, heq⟩ := hplaceholder
  by_contra hother
  exact h.others name hname hother entry n heq

/-! ## §2 Several clauses -/

/-- In a larger table a clause finds its own placeholders, and nothing else under a name that it
    shows. -/
theorem get?_eq {p : Placeholders} (hp : p.Numbered)
    (hholds : ∀ name v, c.placeholders.get? name = some v → p.get? name = some v) {name : String}
    (hname : name ∈ visibleNames c.fragment) : p.get? name = c.placeholders.get? name := by
  cases hget : c.placeholders.get? name with
  | some v => exact hholds name v hget
  | none =>
    apply hp.get?_eq_none
    exact h.others name hname (c.placeholders.get?_eq_none_iff.1 hget)

/-- A clause is written in the same way if its table holds more. -/
theorem replaceNames_eq {p : Placeholders} (hp : p.Numbered)
    (hholds : ∀ name v, c.placeholders.get? name = some v → p.get? name = some v)
    (hsupplied : ∀ v ∈ e.vars, b.contains v.key) :
    replaceNames (Resolver.fresh p b).valueText? c.fragment = bound b := by
  rw [← h.writes b hsupplied]
  apply replaceNames_congr
  intro name hname
  rw [Resolver.valueText?, Resolver.valueText?, h.get?_eq hp hholds hname]

end IsTemplate

end CompiledFragment

namespace Placeholders

variable {tables : List Placeholders} {b : Bindings}

theorem numbered_joinedAll (h : ∀ p ∈ tables, p.Numbered) : Numbered (.joinedAll .empty tables) := by
  intro name hname
  rcases mem_names_joinedAll.1 hname with hname | ⟨p, hp, hname⟩
  · cases hname
  · exact h p hp name hname

/-- **Several clauses together** need what each of them needs. -/
theorem supplied_joinedAll_iff (hapart : tables.Pairwise Apart) :
    Supplied (.joinedAll .empty tables) b ↔ ∀ p ∈ tables, p.Supplied b := by
  unfold Supplied
  simp only [get?_joinedAll_iff hapart]
  constructor
  · intro h p hp name v hv
    exact h name v ⟨p, hp, hv⟩
  · rintro h name v ⟨p, hp, hv⟩
    exact h p hp name v hv

end Placeholders

end QueryPipeline
