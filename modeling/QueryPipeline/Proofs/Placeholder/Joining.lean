import QueryPipeline.Assembly

/-!
# Joining the placeholders of clauses

The clauses of a query, and the assignments of an update, keep their placeholders in one table.
Taking in a clause fails only for a name that is there already, so clauses whose names are apart can
always be joined.

## Main definitions

- `Placeholders.Apart`: tables without a common name.
- `Placeholders.joined`, `Placeholders.joinedAll`: the placeholders of several clauses together.
- `Placeholders.FirstShared`: the first name that two tables share.

## Main statements

- `Placeholders.exec_absorb_cases`: what joining two tables does, also where it fails.
- `Selection.assemble_eq`: where a selection can fail.
- `Selection.assemble_of_apart`: a selection whose clauses are apart fails only in its stages.
- `Update.assemble_of_apart`: an update whose assignments are apart fails only if it is empty.
-/

namespace QueryPipeline

namespace Placeholders

/-! ## §1 Two tables -/

/-- Tables without a common name. -/
def Apart (p other : Placeholders) : Prop :=
  ∀ name ∈ other.names, name ∉ p.names

/-- The placeholders of two clauses together. -/
def joined (p other : Placeholders) : Placeholders :=
  other.entries.foldl (fun t e => t.insert e.1 e.2) p

theorem get?_foldl_insert {entries : List (String × Variable)}
    (h : (entries.map Prod.fst).Nodup) (p : Placeholders) (name : String) :
    (entries.foldl (fun t e => t.insert e.1 e.2) p).get? name =
      (entries.lookup name).or (p.get? name) := by
  induction entries generalizing p with
  | nil => rfl
  | cons first rest ih =>
    obtain ⟨other, v⟩ := first
    obtain ⟨hother, hrest⟩ := List.nodup_cons.1 h
    rw [List.foldl_cons, ih hrest, NameTable.get?_insert, List.lookup_cons]
    by_cases hname : name = other
    · subst hname
      -- the name comes only once
      have hnone : rest.lookup name = none := NameTable.lookup_eq_none_iff_not_mem.2 hother
      simp [hnone]
    · have hne : (name == other) = false := beq_eq_false_iff_ne.2 hname
      simp [hne, hname]

theorem get?_joined (p other : Placeholders) (name : String) :
    (p.joined other).get? name = (other.get? name).or (p.get? name) :=
  get?_foldl_insert other.nodup_names p name

theorem mem_names_joined {p other : Placeholders} {name : String} :
    name ∈ (p.joined other).names ↔ name ∈ p.names ∨ name ∈ other.names := by
  simp only [NameTable.mem_names_iff, NameTable.contains, get?_joined]
  cases other.get? name <;> simp

/-- Entries under new names are taken in one after the other, whatever comes behind them. -/
theorem exec_absorbEntries_append {entries : List (String × Variable)}
    (hnodup : (entries.map Prod.fst).Nodup) {p : Placeholders}
    (hfresh : ∀ e ∈ entries, e.1 ∉ p.names) (rest : List (String × Variable)) :
    (absorbEntries (entries ++ rest)).exec p =
      (absorbEntries rest).exec (entries.foldl (fun t e => t.insert e.1 e.2) p) := by
  induction entries generalizing p with
  | nil => rfl
  | cons first others ih =>
    obtain ⟨name, v⟩ := first
    obtain ⟨hname, hothers⟩ := List.nodup_cons.1 hnodup
    have hnew : p.contains name = false := by
      have hnot := hfresh _ List.mem_cons_self
      rw [NameTable.mem_names_iff] at hnot
      exact Bool.eq_false_iff.2 hnot
    -- the names that follow are still new after this one
    have hfresh' : ∀ e ∈ others, e.1 ∉ (p.insert name v).names := by
      intro e he hin
      rw [NameTable.mem_names_iff, NameTable.contains, NameTable.get?_insert] at hin
      have hne : e.1 ≠ name := fun heq => hname (List.mem_map.2 ⟨e, he, heq⟩)
      rw [if_neg hne] at hin
      exact hfresh e (List.mem_cons_of_mem _ he) ((p.mem_names_iff).2 hin)
    rw [List.cons_append, absorbEntries, Run.exec_bind_ok (Run.exec_get p), hnew]
    exact ih hothers hfresh'

/-- Taking in entries fails only for a name that is there already. -/
theorem exists_shared_of_absorbEntries {entries : List (String × Variable)} {p : Placeholders}
    {err : CompileError} (h : (absorbEntries entries).eval p = .error err) :
    ∃ name, err = .internal (.sharedPlaceholder name) := by
  induction entries generalizing p with
  | nil => cases h
  | cons first rest ih =>
    unfold absorbEntries Run.eval at h
    rw [Run.exec_bind_ok (Run.exec_get p)] at h
    cases hname : p.contains first.1 with
    | true =>
      rw [hname] at h
      cases h
      exact ⟨first.1, rfl⟩
    | false =>
      rw [hname] at h
      exact ih h

/-- **Tables that are apart can be joined.** -/
theorem exec_absorb {p other : Placeholders} (h : p.Apart other) :
    (absorb other).exec p = (.ok (), p.joined other) := by
  have hentries := exec_absorbEntries_append other.nodup_names
    (fun e he => h e.1 (List.mem_map.2 ⟨e, he, rfl⟩)) []
  rwa [List.append_nil] at hentries

/-! ## §2 Tables that share a name -/

/-- The first name, in order, that two tables share. -/
structure FirstShared (p other : Placeholders) (name : String) : Prop where
  mem : name ∈ p.names
  mem_other : name ∈ other.names
  first : ∀ smaller ∈ other.names, smaller < name → smaller ∉ p.names

/-- The entries of a table before a name. -/
def before (p : Placeholders) (name : String) : Placeholders where
  entries := p.entries.filter fun e => e.1 < name
  ascending := p.ascending.filter _

theorem mem_names_before {p : Placeholders} {name smaller : String} :
    smaller ∈ (p.before name).names ↔ smaller ∈ p.names ∧ smaller < name := by
  simp only [NameTable.names, before, List.mem_map, List.mem_filter, decide_eq_true_eq]
  constructor
  · rintro ⟨e, ⟨he, hlt⟩, rfl⟩
    exact ⟨⟨e, he, rfl⟩, hlt⟩
  · rintro ⟨⟨e, he, rfl⟩, hlt⟩
    exact ⟨e, ⟨he, hlt⟩, rfl⟩

/-- The entries around one of them are those of smaller and of greater names. -/
theorem entries_before {p : Placeholders} {name : String} {v : Variable}
    {front back : List (String × Variable)} (h : p.entries = front ++ (name, v) :: back) :
    (p.before name).entries = front := by
  have hsorted := p.ascending
  rw [h] at hsorted
  obtain ⟨_, hback, hfront⟩ := List.pairwise_append.1 hsorted
  have hsmaller : ∀ e ∈ front, decide (e.1 < name) = true := fun e he =>
    decide_eq_true (hfront e he (name, v) List.mem_cons_self)
  have hgreater : ∀ e ∈ (name, v) :: back, ¬ decide (e.1 < name) = true := by
    intro e he hlt
    rcases List.mem_cons.1 he with rfl | he
    · exact String.lt_irrefl _ (of_decide_eq_true hlt)
    · exact String.lt_asymm (of_decide_eq_true hlt) ((List.pairwise_cons.1 hback).1 e he)
  show p.entries.filter (fun e => e.1 < name) = front
  rw [h, List.filter_append, List.filter_eq_self.2 hsmaller, List.filter_eq_nil_iff.2 hgreater,
    List.append_nil]

variable {p other : Placeholders} {name : String}

theorem exists_firstShared (h : ¬ p.Apart other) : ∃ name, FirstShared p other name := by
  obtain ⟨⟨name, v⟩, hfind⟩ : ∃ e, other.entries.find? (fun e => p.contains e.1) = some e := by
    rw [← Option.isSome_iff_exists, List.find?_isSome]
    simp only [Apart, Classical.not_forall, Classical.not_not] at h
    obtain ⟨shared, hother, hp⟩ := h
    obtain ⟨e, he, rfl⟩ := List.mem_map.1 hother
    exact ⟨e, he, p.mem_names_iff.1 hp⟩
  obtain ⟨hget, hcontains, hfirst⟩ := other.find?_entries_eq_some_iff.1 hfind
  refine ⟨name, p.mem_names_iff.2 hcontains, other.mem_names_of_get? hget, ?_⟩
  intro smaller hsmaller hlt hin
  rw [NameTable.mem_names_iff, hfirst smaller hsmaller hlt] at hin
  cases hin

/-- **Tables that share a name cannot be joined**: the first shared name is reported, and what came
    before it has been taken in. -/
theorem exec_absorb_of_firstShared (h : FirstShared p other name) :
    (absorb other).exec p =
      (.error (.internal (.sharedPlaceholder name)), p.joined (other.before name)) := by
  obtain ⟨v, hv⟩ := other.exists_get?_of_mem_names h.mem_other
  obtain ⟨front, back, hentries⟩ := List.append_of_mem (other.mem_entries_iff.2 hv)
  have hfront := entries_before hentries
  have hnodup : (front.map Prod.fst).Nodup := hfront ▸ (other.before name).nodup_names
  have hfresh : ∀ e ∈ front, e.1 ∉ p.names := by
    intro e he
    rw [← hfront] at he
    obtain ⟨hmem, hlt⟩ := mem_names_before.1 (List.mem_map.2 ⟨e, he, rfl⟩)
    exact h.first e.1 hmem hlt
  have hshared : (p.joined (other.before name)).contains name = true :=
    (NameTable.mem_names_iff _).1 (mem_names_joined.2 (.inl h.mem))
  -- all that comes before the name is taken in, and then the name is found
  unfold absorb
  rw [hentries, exec_absorbEntries_append hnodup hfresh]
  unfold joined at hshared ⊢
  rw [hfront] at hshared ⊢
  rw [absorbEntries, Run.exec_bind_ok (Run.exec_get _), hshared]
  rfl

/-- **What joining two tables does**: it succeeds exactly if they are apart, and else stops at the
    first shared name. -/
theorem exec_absorb_cases (p other : Placeholders) :
    (p.Apart other ∧ (absorb other).exec p = (.ok (), p.joined other)) ∨
      ∃ name, FirstShared p other name ∧ (absorb other).exec p =
        (.error (.internal (.sharedPlaceholder name)), p.joined (other.before name)) := by
  by_cases h : p.Apart other
  · exact .inl ⟨h, exec_absorb h⟩
  · obtain ⟨name, hname⟩ := exists_firstShared h
    exact .inr ⟨name, hname, exec_absorb_of_firstShared hname⟩

/-- A table that could not be joined is as it was only if the first shared name is the first of all. -/
theorem joined_before_eq_self_iff (h : FirstShared p other name) :
    p.joined (other.before name) = p ↔ ∀ smaller ∈ other.names, ¬ smaller < name := by
  constructor
  · intro heq smaller hsmaller hlt
    have hin : smaller ∈ (p.joined (other.before name)).names :=
      mem_names_joined.2 (.inr (mem_names_before.2 ⟨hsmaller, hlt⟩))
    rw [heq] at hin
    exact h.first smaller hsmaller hlt hin
  · intro hnone
    have hempty : (other.before name).entries = [] := by
      apply List.filter_eq_nil_iff.2
      intro e he hlt
      exact hnone e.1 (List.mem_map.2 ⟨e, he, rfl⟩) (of_decide_eq_true hlt)
    rw [joined, hempty]
    rfl

/-- A table that is told of `var1` and `var2` keeps `var1` if it knew `var2` before. -/
example :
    let known : Placeholders := NameTable.empty.insert "var2" { field := "a", type := .int }
    let told : Placeholders := known.insert "var1" { field := "b", type := .int }
    ((absorb told).exec known).2.names = ["var1", "var2"] := by
  decide

/-! ## §3 Several tables -/

/-- The placeholders of several clauses together. -/
def joinedAll (p : Placeholders) (others : List Placeholders) : Placeholders :=
  others.foldl joined p

@[simp] theorem joinedAll_cons (p first : Placeholders) (rest : List Placeholders) :
    p.joinedAll (first :: rest) = (p.joined first).joinedAll rest :=
  rfl

theorem mem_names_joinedAll {p : Placeholders} {others : List Placeholders} {name : String} :
    name ∈ (p.joinedAll others).names ↔ name ∈ p.names ∨ ∃ other ∈ others, name ∈ other.names := by
  induction others generalizing p with
  | nil => simp [joinedAll]
  | cons first rest ih => simp [ih, mem_names_joined, or_assoc]

/-- Tables that do not know a name say nothing about it. -/
theorem get?_joinedAll_of_not_mem {p : Placeholders} {others : List Placeholders} {name : String}
    (h : ∀ other ∈ others, name ∉ other.names) : (p.joinedAll others).get? name = p.get? name := by
  induction others generalizing p with
  | nil => rfl
  | cons first rest ih =>
    obtain ⟨hfirst, hrest⟩ := List.forall_mem_cons.1 h
    have hnone : first.get? name = none := by
      rw [NameTable.mem_names_iff, NameTable.contains] at hfirst
      simpa using hfirst
    rw [joinedAll_cons, ih hrest, get?_joined, hnone, Option.none_or]

/-- What one of several tables that are apart says is what all of them together say. -/
theorem get?_joinedAll_of_mem {p : Placeholders} {others : List Placeholders}
    (hapart : others.Pairwise Apart) {other : Placeholders} (hother : other ∈ others)
    {name : String} {v : Variable} (hv : other.get? name = some v) :
    (p.joinedAll others).get? name = some v := by
  induction others generalizing p with
  | nil => cases hother
  | cons first rest ih =>
    obtain ⟨hfirst, hrest⟩ := List.pairwise_cons.1 hapart
    rcases List.mem_cons.1 hother with rfl | hother
    · -- the tables that follow do not know the name
      have hlater : ∀ t ∈ rest, name ∉ t.names := fun t ht hmem =>
        hfirst t ht name hmem (other.mem_names_of_get? hv)
      rw [joinedAll_cons, get?_joinedAll_of_not_mem hlater, get?_joined, hv, Option.some_or]
    · exact ih hrest hother

/-- **All tables together** say what one of them says. -/
theorem get?_joinedAll_iff {others : List Placeholders} (hapart : others.Pairwise Apart)
    {name : String} {v : Variable} :
    (joinedAll .empty others).get? name = some v ↔ ∃ other ∈ others, other.get? name = some v := by
  constructor
  · intro hv
    rcases mem_names_joinedAll.1 (NameTable.mem_names_of_get? _ hv) with hname | ⟨other, hother, hname⟩
    · cases hname
    · -- the table that knows the name says the same as all of them
      obtain ⟨w, hw⟩ := other.exists_get?_of_mem_names hname
      rw [get?_joinedAll_of_mem hapart hother hw] at hv
      cases hv
      exact ⟨other, hother, hw⟩
  · rintro ⟨other, hother, hv⟩
    exact get?_joinedAll_of_mem hapart hother hv

/-- Several tables that are apart can be joined one after the other. -/
theorem exec_forM_absorb {α : Type} (tableOf : α → Placeholders) {l : List α} {p : Placeholders}
    (hapart : (l.map tableOf).Pairwise Apart) (hfresh : ∀ a ∈ l, p.Apart (tableOf a)) :
    (l.forM fun a => absorb (tableOf a)).exec p = (.ok (), p.joinedAll (l.map tableOf)) := by
  induction l generalizing p with
  | nil => rfl
  | cons first rest ih =>
    obtain ⟨hfirst, hrest⟩ := List.pairwise_cons.1 hapart
    have hfresh' : ∀ a ∈ rest, (p.joined (tableOf first)).Apart (tableOf a) := by
      intro a ha name hname hin
      rcases mem_names_joined.1 hin with hin | hin
      · exact hfresh a (List.mem_cons_of_mem _ ha) name hname hin
      · exact hfirst _ (List.mem_map.2 ⟨a, ha, rfl⟩) name hname hin
    have hstep : (absorb (tableOf first)).exec p = (.ok (), p.joined (tableOf first)) :=
      exec_absorb (hfresh first List.mem_cons_self)
    exact (Run.exec_bind_ok hstep).trans (ih hrest hfresh')

theorem empty_apart (p : Placeholders) : Apart .empty p :=
  fun _ _ h => nomatch h

end Placeholders

/-! ## §4 Selections and updates -/

/-- The clauses of a selection that hold placeholders. -/
def Selection.clauses (s : Selection) : List CompiledFragment :=
  s.filter.toList ++ s.having.toList

theorem Selection.forall_mem_clauses {s : Selection} {motive : CompiledFragment → Prop} :
    (∀ c ∈ s.clauses, motive c) ↔ (∀ c ∈ s.filter, motive c) ∧ ∀ c ∈ s.having, motive c := by
  unfold clauses
  simp only [List.forall_mem_append, Option.mem_toList, Option.mem_def]

/-- The placeholders of all clauses of a selection. -/
def Selection.placeholders (s : Selection) : Placeholders :=
  .joinedAll .empty (s.clauses.map CompiledFragment.placeholders)

/-- The placeholders of a selection are those of its filter and of its HAVING clause. -/
theorem Selection.get?_placeholders_iff {s : Selection}
    (h : (s.clauses.map CompiledFragment.placeholders).Pairwise Placeholders.Apart)
    {name : String} {v : Variable} :
    s.placeholders.get? name = some v ↔
      (∃ c ∈ s.filter, c.placeholders.get? name = some v) ∨
        ∃ c ∈ s.having, c.placeholders.get? name = some v := by
  rw [placeholders, Placeholders.get?_joinedAll_iff h, clauses]
  cases s.filter <;> cases s.having <;> simp

theorem Selection.filter_apart_having {s : Selection}
    (h : (s.clauses.map CompiledFragment.placeholders).Pairwise Placeholders.Apart) :
    ∀ c ∈ s.filter, ∀ c' ∈ s.having, c.placeholders.Apart c'.placeholders := by
  intro c hc c' hc'
  rw [clauses, List.map_append, List.pairwise_append] at h
  exact h.2.2 _ (List.mem_map.2 ⟨c, Option.mem_toList.2 hc, rfl⟩) _
    (List.mem_map.2 ⟨c', Option.mem_toList.2 hc', rfl⟩)

/-- Taking in a clause fails only for a name that is there already. -/
theorem exists_shared_of_absorbClause {clause : Option CompiledFragment} {p : Placeholders}
    {err : CompileError} (h : (absorbClause clause).eval p = .error err) :
    ∃ name, err = .internal (.sharedPlaceholder name) := by
  cases clause with
  | none => cases h
  | some c => exact Placeholders.exists_shared_of_absorbEntries h

/-- The table before the HAVING clause is taken in. -/
def Selection.filterPlaceholders (s : Selection) : Placeholders :=
  .joinedAll .empty (s.filter.toList.map CompiledFragment.placeholders)

theorem exec_absorbClause_filter (s : Selection) :
    (absorbClause s.filter).exec .empty = (.ok (), s.filterPlaceholders) := by
  unfold Selection.filterPlaceholders
  cases s.filter with
  | none => rfl
  | some c => exact Placeholders.exec_absorb (Placeholders.empty_apart c.placeholders)

/-- **Where a selection can fail**: in its stages first, then at the HAVING clause, and never at the
    filter, which finds an empty table. -/
theorem Selection.assemble_eq (config : Config) (s : Selection) :
    s.assemble config = (do
      let stages ← s.stages config
      let having := (absorbClause s.having).exec s.filterPlaceholders
      having.1.map fun _ => { stages, placeholders := having.2 }) := by
  unfold assemble Run.eval
  rw [Run.exec_bind_ok (exec_absorbClause_filter s), Run.exec_bind, Run.exec_lift]
  cases s.stages config with
  | error err => rfl
  | ok stages =>
    simp only
    rw [Run.exec_bind]
    rcases (absorbClause s.having).exec s.filterPlaceholders with ⟨_ | _, _⟩ <;> rfl

/-- **A selection whose clauses are apart** fails only in its stages. -/
theorem Selection.assemble_of_apart (config : Config) {s : Selection}
    (h : (s.clauses.map CompiledFragment.placeholders).Pairwise Placeholders.Apart) :
    s.assemble config = (do
      let stages ← s.stages config
      return { stages, placeholders := s.placeholders }) := by
  have hhaving : (absorbClause s.having).exec s.filterPlaceholders = (.ok (), s.placeholders) := by
    unfold filterPlaceholders placeholders clauses at *
    cases hhaving : s.having with
    | none => simp [absorbClause]
    | some c =>
      rw [hhaving, List.map_append, List.pairwise_append] at h
      -- what the first clause has left in the table is apart from the second one
      have hapart : (Placeholders.joinedAll .empty
          (s.filter.toList.map CompiledFragment.placeholders)).Apart c.placeholders := by
        intro name hname hin
        rcases Placeholders.mem_names_joinedAll.1 hin with hin | ⟨other, hother, hin⟩
        · cases hin
        · exact h.2.2 other hother c.placeholders (List.mem_singleton_self _) name hname hin
      rw [absorbClause, Placeholders.exec_absorb hapart, List.map_append, Placeholders.joinedAll,
        Placeholders.joinedAll, List.foldl_append]
      rfl
  rw [assemble_eq, hhaving]
  rfl

theorem Selection.assemble_eq_error_iff_of_apart {config : Config} {s : Selection}
    (h : (s.clauses.map CompiledFragment.placeholders).Pairwise Placeholders.Apart)
    {err : CompileError} : s.assemble config = .error err ↔ s.stages config = .error err := by
  rw [assemble_of_apart config h, Run.bind_eq_error_iff, or_iff_left_iff_imp]
  rintro ⟨_, _, herr⟩
  cases herr

/-- **An update whose assignments are apart** fails only if there are none. -/
theorem Update.assemble_of_apart {assignments : List (String × CompiledFragment)}
    (hne : assignments ≠ [])
    (h : (assignments.map fun a => a.2.placeholders).Pairwise Placeholders.Apart) :
    Update.assemble assignments = .ok
      { fragment := singleton "$set"
          (FieldList.ofList (assignments.map fun a => (a.1, a.2.fragment))).render
        placeholders := Placeholders.joinedAll .empty
          (assignments.map fun a => a.2.placeholders) } := by
  have hjoin := Placeholders.exec_forM_absorb (fun a : String × CompiledFragment => a.2.placeholders)
    h fun a _ => Placeholders.empty_apart a.2.placeholders
  have hnonempty : assignments.isEmpty = false := by simpa using hne
  unfold assemble Run.eval
  rw [hnonempty]
  simp only [Bool.false_eq_true, if_false]
  rw [Run.exec_bind_ok hjoin]
  rfl

end QueryPipeline
