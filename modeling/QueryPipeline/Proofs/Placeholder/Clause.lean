import QueryPipeline.Proofs.Fragment.Scan
import QueryPipeline.Proofs.Numbering
import QueryPipeline.Proofs.Placeholder.Joining

/-!
# Placeholders of finished clauses

A clause that is compiled from a sequence on keeps the variables of its expression under the names
that the sequence gives them, and moves the numbering on by all its variables and constants.  So
clauses that are compiled one after the other are apart.

## Main definitions

- `CompiledFragment.NumberedFrom`: the placeholders of a clause come from a sequence.

## Main statements

- `CompiledFragment.NumberedFrom.get?_placeholders`: which variables remain, and under which names.
- `CompiledFragment.NumberedFrom.issued`: their names were given out for this clause.
- `apart_of_issued`: clauses whose names were given out one after the other are apart.
-/

namespace QueryPipeline

/-- The names of placeholders are names as a whole. -/
theorem isName_placeholderName (entry : PlaceholderEntry) (n : Nat) :
    IsName (placeholderName entry n) := by
  have hdigits : (toString n).toList.all isWordChar = true := by
    rw [List.all_eq_true]
    intro c hc
    rw [Nat.toString_eq_repr, Nat.toList_repr] at hc
    have hdigit := Nat.isDigit_of_mem_toDigits (by decide) (by decide) hc
    simp [isWordChar, Char.isAlphanum, hdigit]
  have hvar : IsName "var" := ⟨⟨'v', by decide, rfl⟩, by decide⟩
  have hlit : IsName "lit" := ⟨⟨'l', by decide, rfl⟩, by decide⟩
  cases entry
  · exact hvar.append hdigits
  · exact hlit.append hdigits

/-- A clause whose placeholders are those of an expression, numbered from a sequence on. -/
structure CompiledFragment.NumberedFrom (c : CompiledFragment) (s : Sequence) (e : Expr) : Prop where
  placeholders : c.placeholders = ((PlaceholderTable.startingAt s).extend e.entries).remaining
  sequence : c.sequence = s.advance e.entries

namespace CompiledFragment.NumberedFrom

variable {c : CompiledFragment} {s : Sequence} {e : Expr} {name : String} {v : Variable}
  (h : c.NumberedFrom s e)

include h

/-- The variables of a clause remain under the placeholders they were given. -/
theorem get?_placeholders :
    c.placeholders.get? name = some v ↔ (name, .variable v) ∈ s.named e.entries := by
  rw [h.placeholders]
  exact PlaceholderTable.get?_remaining_extend_startingAt

theorem issued (hname : name ∈ c.placeholders.names) : s.Issued c.sequence name := by
  obtain ⟨v, hv⟩ := c.placeholders.exists_get?_of_mem_names hname
  rw [h.sequence]
  exact Sequence.issued_of_mem_named (h.get?_placeholders.1 hv)

/-- A value is supplied for every placeholder of a clause if one is for every variable. -/
theorem forall_get?_iff {motive : Variable → Prop} :
    (∀ name v, c.placeholders.get? name = some v → motive v) ↔ ∀ v ∈ e.vars, motive v := by
  constructor
  · intro hall v hv
    obtain ⟨entry, hentry, hvariable⟩ := List.mem_filterMap.1 hv
    cases entry <;> cases hvariable
    obtain ⟨name, hname⟩ := Sequence.exists_mem_named s hentry
    exact hall name v (h.get?_placeholders.2 hname)
  · intro hall name v hv
    refine hall v (List.mem_filterMap.2 ⟨.variable v, ?_, rfl⟩)
    exact Sequence.mem_of_mem_named (h.get?_placeholders.1 hv)

end CompiledFragment.NumberedFrom

/-- Tables whose names were given out one after the other are apart. -/
theorem apart_of_issued {p other : Placeholders} {s t s' t' : Sequence} (hts : t ≤ s')
    (hp : ∀ name ∈ p.names, s.Issued t name) (hother : ∀ name ∈ other.names, s'.Issued t' name) :
    p.Apart other :=
  fun name hname hin => (hp name hin).not_later hts (hother name hname)

/-- The clauses of a selection are apart if the HAVING clause was numbered behind the filter. -/
theorem Selection.apart_of_issued {sel : Selection} {s t u : Sequence}
    (hfilter : ∀ c ∈ sel.filter, ∀ name ∈ c.placeholders.names, s.Issued t name)
    (hhaving : ∀ c ∈ sel.having, ∀ name ∈ c.placeholders.names, t.Issued u name) :
    (sel.clauses.map CompiledFragment.placeholders).Pairwise Placeholders.Apart := by
  unfold Selection.clauses
  cases hf : sel.filter with
  | none => cases sel.having <;> simp
  | some f =>
    cases hh : sel.having with
    | none => simp
    | some h => simpa using QueryPipeline.apart_of_issued t.le_refl (hfilter f hf) (hhaving h hh)

end QueryPipeline
