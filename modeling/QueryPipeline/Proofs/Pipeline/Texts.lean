import QueryPipeline.Proofs.FieldList
import QueryPipeline.Proofs.Fragment.Documents
import QueryPipeline.Proofs.Pipeline.Stages
import QueryPipeline.Proofs.Projection.Direct

/-!
# What the stages without a filter show

The group, project, sort, skip and limit stages of a query hold no placeholder.  They are made of
names in quotes, of constants, and of numbers, so they show none either, as long as no name has a
quote in it and the constants are inert.

## Main statements

- `showsNoPlaceholder_of_compileProjection`, `quoteFree_of_compileKey`: outputs and keys.
- `Selection.showsNoPlaceholder_middle`, `Selection.showsNoPlaceholder_ending`: whole stages.
-/

namespace QueryPipeline

/-! ## §1 Outputs and keys -/

theorem Leaf.IsInert.showsNoPlaceholder_projection {l : Leaf} (h : l.IsInert) :
    ShowsNoPlaceholder l.projection.render := by
  rcases l with c | (v | ⟨value, type⟩)
  · exact showsNoPlaceholder_fieldPath h
  · apply ShowsNoPlaceholder.singleton (by decide)
    exact @showsNoPlaceholder_quoted "?" (by decide)
  · exact ShowsNoPlaceholder.singleton (by decide) h.showsNoPlaceholder

theorem quoteFree_operator (f : Aggregate) : QuoteFree f.operator := by
  cases f <;> decide

/-- **An output shows no placeholder.** -/
theorem showsNoPlaceholder_of_compileProjection {e : Expr} {p : Projection} (h : e.IsInert)
    (hp : compileProjection e = .ok p) : ShowsNoPlaceholder p.render := by
  rcases compileProjection_eq_ok hp with ⟨l, hleaf, rfl⟩ | ⟨f, function, a, l, rfl, _, hleaf, rfl⟩
  · exact (h.leaf hleaf).showsNoPlaceholder_projection
  · -- the argument is all that is inside
    have harg : a.IsInert := by
      obtain ⟨hcolumns, hconstants⟩ := h
      unfold Expr.HasInertConstants at hconstants
      rw [Expr.columns_call, List.flatMap_singleton] at hcolumns
      rw [Expr.entries_call, List.flatMap_singleton] at hconstants
      exact ⟨hcolumns, hconstants⟩
    exact .singleton (quoteFree_operator function) (harg.leaf hleaf).showsNoPlaceholder_projection

/-- A key is a column. -/
theorem compileKey_eq_ok {e : Expr} {field : String} (h : compileKey e = .ok field) :
    ∃ c, e = .column c ∧ field = c.field := by
  obtain ⟨p, hp, hfield⟩ := Run.bind_eq_ok_iff.1 h
  rcases compileProjection_eq_ok hp with ⟨l, hleaf, rfl⟩ | ⟨_, _, _, _, _, _, _, rfl⟩
  · rcases l with c | (v | ⟨value, type⟩)
    · cases hfield
      cases e <;> cases hleaf
      exact ⟨c, rfl, rfl⟩
    · cases hfield
    · cases hfield
  · cases hfield

theorem quoteFree_of_compileKey {e : Expr} {field : String}
    (hcolumns : ∀ c ∈ e.columns, QuoteFree c.field) (h : compileKey e = .ok field) :
    QuoteFree field := by
  obtain ⟨c, rfl, rfl⟩ := compileKey_eq_ok h
  exact hcolumns c (List.mem_singleton_self c)

/-! ## §2 Bodies of stages -/

theorem showsNoPlaceholder_ofList {entries : List (String × String)}
    (h : ∀ e ∈ entries, QuoteFree e.1 ∧ ShowsNoPlaceholder e.2) :
    ShowsNoPlaceholder (FieldList.ofList entries).render :=
  .document fun e he => h e (FieldList.mem_of_mem_fields_ofList he)

/-- Outputs whose name has no quotes and whose text shows no placeholder. -/
structure OutputAttribute.IsInert (a : OutputAttribute) : Prop where
  name : QuoteFree a.name
  shows : ShowsNoPlaceholder a.projection.render

section

variable {config : Config} {keys : List String} {attributes : List OutputAttribute}
  (hkeys : ∀ k ∈ keys, QuoteFree k) (hattributes : ∀ a ∈ attributes, a.IsInert)

include hkeys in
theorem showsNoPlaceholder_groupKey : ShowsNoPlaceholder (groupKey keys) := by
  have hseveral : ShowsNoPlaceholder
      (FieldList.ofList (keys.map fun k => (k, fieldPath k))).render := by
    apply showsNoPlaceholder_ofList
    intro e he
    obtain ⟨k, hk, rfl⟩ := List.mem_map.1 he
    exact ⟨hkeys k hk, showsNoPlaceholder_fieldPath (hkeys k hk)⟩
  match keys with
  | [] => exact hseveral
  | [key] => exact showsNoPlaceholder_fieldPath (hkeys key (List.mem_singleton_self key))
  | _ :: _ :: _ => exact hseveral

theorem OutputAttribute.IsInert.accumulator {a : OutputAttribute} (h : a.IsInert) (config : Config) :
    ShowsNoPlaceholder (accumulator config a.projection) := by
  have hfallback : QuoteFree config.fallback.operator := by
    cases config.fallback <;> decide
  unfold QueryPipeline.accumulator
  split
  · exact h.shows
  · exact h.shows.singleton hfallback

include hattributes in
theorem showsNoPlaceholder_accumulators {entries : List (String × String)}
    (h : accumulators config keys attributes = .ok entries) :
    ∀ e ∈ entries, QuoteFree e.1 ∧ ShowsNoPlaceholder e.2 := by
  induction attributes generalizing entries with
  | nil =>
    cases h
    simp
  | cons a rest ih =>
    obtain ⟨ha, hrest⟩ := List.forall_mem_cons.1 hattributes
    unfold accumulators at h
    split at h
    · exact ih hrest h
    · split at h
      · cases h
      · obtain ⟨others, hothers, heq⟩ := Run.bind_eq_ok_iff.1 h
        cases heq
        exact List.forall_mem_cons.2 ⟨⟨ha.name, ha.accumulator config⟩, ih hrest hothers⟩

include hkeys in
theorem OutputAttribute.IsInert.projectValue {a : OutputAttribute} (h : a.IsInert) :
    ShowsNoPlaceholder (projectValue keys a) := by
  have hid : QuoteFree groupKeyField := by decide
  unfold QueryPipeline.projectValue
  split
  · exact h.shows
  · split
    · split
      · exact showsNoPlaceholder_fieldPath hid
      · split
        · -- a column to group by
          rename_i field _ _ hcontains
          have hfield : QuoteFree field := hkeys field (by simpa using hcontains)
          exact showsNoPlaceholder_fieldPath ((hid.append (by decide)).append hfield)
        · exact showsNoPlaceholder_fieldPath h.name
    · exact showsNoPlaceholder_fieldPath h.name

include hkeys hattributes in
theorem showsNoPlaceholder_projectFields :
    ShowsNoPlaceholder (projectFields keys attributes).render := by
  apply showsNoPlaceholder_ofList
  have hid : QuoteFree groupKeyField := by decide
  have hzero : IsNumeral "0" := by decide
  refine List.forall_mem_cons.2 ⟨⟨hid, hzero.showsNoPlaceholder⟩, ?_⟩
  intro e he
  obtain ⟨a, ha, rfl⟩ := List.mem_map.1 he
  exact ⟨(hattributes a ha).name, (hattributes a ha).projectValue hkeys⟩

include hkeys hattributes in
theorem showsNoPlaceholder_groupFields {fields : FieldList}
    (h : groupFields config keys attributes = .ok fields) : ShowsNoPlaceholder fields.render := by
  obtain ⟨entries, hentries, hfields⟩ := Run.bind_eq_ok_iff.1 h
  cases hfields
  apply showsNoPlaceholder_ofList
  have hid : QuoteFree groupKeyField := by decide
  exact List.forall_mem_cons.2
    ⟨⟨hid, showsNoPlaceholder_groupKey hkeys⟩, showsNoPlaceholder_accumulators hattributes hentries⟩

end

theorem showsNoPlaceholder_sortFields {keys : List SortKey} (h : ∀ k ∈ keys, QuoteFree k.field) :
    ShowsNoPlaceholder (sortFields keys).render := by
  apply showsNoPlaceholder_ofList
  intro e he
  obtain ⟨k, hk, rfl⟩ := List.mem_map.1 he
  exact ⟨h k hk, (isNumeral_int k.order.direction).showsNoPlaceholder⟩

/-! ## §3 Whole stages -/

namespace Selection

variable {s : Selection}

/-- **The group and project stages** show no placeholder. -/
theorem showsNoPlaceholder_middle {config : Config} {middle : List Stage}
    (hkeys : ∀ k ∈ s.groupBy, QuoteFree k) (hattributes : ∀ a ∈ s.attributes, a.IsInert)
    (h : s.middle config = .ok middle) : ∀ stage ∈ middle, ShowsNoPlaceholder stage.render := by
  have hproject : ∀ stage ∈ s.projectStage, ShowsNoPlaceholder stage.render := by
    unfold projectStage
    split
    · simp
    · intro stage hstage
      rw [List.mem_singleton.1 hstage]
      exact (showsNoPlaceholder_projectFields hkeys hattributes).singleton (by decide)
  have hgroup : ∀ group, s.groupStage config = .ok group →
      ∀ stage ∈ group, ShowsNoPlaceholder stage.render := by
    intro group hgroup
    unfold groupStage at hgroup
    split at hgroup
    · cases hgroup
      simp
    · cases hfields : groupFields config s.groupBy s.attributes with
      | error err =>
        rw [hfields] at hgroup
        cases hgroup
      | ok fields =>
        rw [hfields] at hgroup
        cases hgroup
        intro stage hstage
        rw [List.mem_singleton.1 hstage]
        exact (showsNoPlaceholder_groupFields hkeys hattributes hfields).singleton (by decide)
  unfold Selection.middle at h
  cases hstage : s.groupStage config with
  | error err =>
    rw [hstage] at h
    cases h
  | ok group =>
    rw [hstage] at h
    cases h
    exact List.forall_mem_append.2 ⟨hgroup group hstage, hproject⟩

/-- **The sort, skip and limit stages** show no placeholder. -/
theorem showsNoPlaceholder_ending (h : ∀ k ∈ s.orderBy, QuoteFree k.field) :
    ∀ stage ∈ s.ending, ShowsNoPlaceholder stage.render := by
  have hcount : ∀ n : Nat, ShowsNoPlaceholder (toString n) := by
    intro n
    have hint : toString (n : Int) = toString n := rfl
    rw [← hint]
    exact (isNumeral_int n).showsNoPlaceholder
  have hstageOf : ∀ (count : Option UInt64) (stage : UInt64 → Stage),
      (∀ n, ShowsNoPlaceholder (stage n).render) →
      ∀ st ∈ stageOf count stage, ShowsNoPlaceholder st.render := by
    intro count stage hstage st hst
    cases count with
    | none => cases hst
    | some n =>
      rw [List.mem_singleton.1 hst]
      exact hstage n
  unfold ending
  refine List.forall_mem_append.2 ⟨List.forall_mem_append.2 ⟨?_, ?_⟩, ?_⟩
  · split
    · simp
    · intro stage hstage
      rw [List.mem_singleton.1 hstage]
      exact (showsNoPlaceholder_sortFields h).singleton (by decide)
  · exact hstageOf s.offset .skip fun n => (hcount n.toNat).singleton (by decide)
  · exact hstageOf s.limit .limit fun n => (hcount n.toNat).singleton (by decide)

end Selection

end QueryPipeline
