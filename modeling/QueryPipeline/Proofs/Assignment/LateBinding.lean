import QueryPipeline.Proofs.Assignment.Direct
import QueryPipeline.Proofs.FieldList
import QueryPipeline.Proofs.Filter.LateBinding
import QueryPipeline.Proofs.Fragment.Documents
import QueryPipeline.Proofs.Session.Clauses

/-!
# Late binding of updates

The assignments of an update share one table of placeholders and make one document, in which a column
that is assigned twice keeps its last value only.  So a variable whose assignment is overwritten does
not stand in the document, and the update cannot be resolved; every other update can, and then the
document holds the supplied values.

## Main definitions

- `Expr.assignedText`: what is written for an assigned value in the end.
- `Assigns`: a compiled assignment as a template.
- `KeepsVariables`: updates that overwrite no variable.

## Main statements

- `forall_stands_iff`: the placeholders of an update stand in its document if none is overwritten.
- `Session.resolve_update_eq_ok_iff`: when an update can be resolved, and to what.
-/

namespace QueryPipeline

/-! ## §1 One assignment -/

/-- What is written for an assigned leaf in the end. -/
def Leaf.boundText (b : Bindings) : Leaf → String
  | .column c => fieldPath c.field
  | .entry a => FilterDocument.boundText b (some a)

/-- What is written for an assigned value in the end. -/
def Expr.assignedText (b : Bindings) (e : Expr) : String :=
  match e.leaf with
  | .ok l => l.boundText b
  | .error _ => ""

/-- A clause without variables that shows no placeholder is final. -/
theorem CompiledFragment.NumberedFrom.isTemplate_of_showsNoPlaceholder {c : CompiledFragment}
    {s : Sequence} {e : Expr} (h : c.NumberedFrom s e) (hvars : e.vars = [])
    (hshows : ShowsNoPlaceholder c.fragment) : c.IsTemplate s e fun _ => c.fragment where
  toNumberedFrom := h
  balanced := hshows.balanced
  shows := by
    intro name hname
    rw [h.names_eq_nil_iff.2 hvars] at hname
    cases hname
  others := fun name hname _ => hshows.ne_placeholder name hname
  writes := fun b _ => hshows.replaceNames_eq_self h.numbered b

/-- A clause that is nothing but the placeholder of a variable is a template for its value. -/
theorem CompiledFragment.NumberedFrom.isTemplate_of_name {c : CompiledFragment} {s : Sequence}
    {e : Expr} (h : c.NumberedFrom s e) {v : Variable} (hentries : e.entries = [.variable v])
    (hfragment : c.fragment = s.nameOf (.variable v)) :
    c.IsTemplate s e fun b => FilterDocument.boundText b (some (.variable v)) := by
  have hname : IsName c.fragment := hfragment ▸ isName_placeholderName _ _
  have hget : c.placeholders.get? c.fragment = some v := by
    rw [h.get?_placeholders, hentries, hfragment]
    exact List.mem_singleton_self _
  refine ⟨h, hname.balanced, ?_, ?_, ?_⟩
  · -- the table holds no other placeholder
    intro name hmem
    obtain ⟨w, hw⟩ := c.placeholders.exists_get?_of_mem_names hmem
    rw [h.get?_placeholders, hentries] at hw
    cases List.mem_singleton.1 hw
    rw [hname.visibleNames_eq, hfragment]
    exact List.mem_singleton_self _
  · -- and the text shows no other name
    intro name hmem hother
    rw [hname.visibleNames_eq, List.mem_singleton] at hmem
    rw [hmem] at hother
    exact absurd (c.placeholders.mem_names_of_get? hget) hother
  · intro b hsupplied
    have hv : v ∈ e.vars := by
      rw [Expr.vars, hentries]
      exact List.mem_singleton_self v
    obtain ⟨value, hvalue⟩ := Option.isSome_iff_exists.1 (hsupplied v hv)
    rw [hname.replaceNames_eq, Resolver.valueText?, hget]
    simp [FilterDocument.boundText, hvalue]

/-- **An assigned leaf is a template.** -/
theorem Leaf.IsInert.isTemplate {l : Leaf} (h : l.IsInert) {e : Expr} (hleaf : e.leaf = .ok l)
    (s : Sequence) : (l.assigned s).IsTemplate s e fun b => l.boundText b := by
  have hnumbered : (l.assigned s).NumberedFrom s e := by
    apply numberedFrom_of_compileAssignment
    rw [compileAssignment_eq, hleaf]
    rfl
  have hentries := Expr.entries_of_leaf hleaf
  rcases l with c | (v | ⟨value, type⟩)
  -- columns and constants are final
  · apply hnumbered.isTemplate_of_showsNoPlaceholder
    · rw [Expr.vars, hentries]
      rfl
    · exact showsNoPlaceholder_fieldPath h
  · exact hnumbered.isTemplate_of_name hentries rfl
  · apply hnumbered.isTemplate_of_showsNoPlaceholder
    · rw [Expr.vars, hentries]
      rfl
    · exact Value.InertAs.showsNoPlaceholder h

/-- **A compiled assignment is a template** for its value. -/
theorem isTemplate_of_compileAssignment {s : Sequence} {e : Expr} {compiled : CompiledFragment}
    (he : e.IsInert) (h : compileAssignment s e = .ok compiled) :
    compiled.IsTemplate s e fun b => e.assignedText b := by
  obtain ⟨l, hleaf, rfl⟩ := compileAssignment_eq_ok h
  have htext : (fun b => e.assignedText b) = fun b => l.boundText b := by
    funext b
    rw [Expr.assignedText, hleaf]
  rw [htext]
  exact (he.leaf hleaf).isTemplate hleaf s

/-! ## §2 Assignments in a row -/

/-- A compiled assignment is a template for the column and value of an assignment. -/
def Assigns (a : String × Expr) (compiled : String × CompiledFragment) : Prop :=
  compiled.1 = a.1 ∧ ∃ s, compiled.2.IsTemplate s a.2 fun b => a.2.assignedText b

/-- Assignments to columns without quotes, of inert values. -/
def InertAssignments (assignments : List (String × Expr)) : Prop :=
  ∀ a ∈ assignments, QuoteFree a.1 ∧ a.2.IsInert

instance (assignments : List (String × Expr)) : Decidable (InertAssignments assignments) :=
  inferInstanceAs (Decidable (∀ a ∈ assignments, QuoteFree a.1 ∧ a.2.IsInert))

theorem forall₂_assigns {s : Sequence} {assignments : List (String × Expr)}
    {compiled : List (String × CompiledFragment)} (hinert : InertAssignments assignments)
    (h : compileAssignments s assignments = .ok compiled) :
    List.Forall₂ Assigns assignments compiled := by
  induction assignments generalizing s compiled with
  | nil =>
    cases h
    exact .nil
  | cons a rest ih =>
    obtain ⟨ha, hrest⟩ := List.forall_mem_cons.1 hinert
    obtain ⟨c, hc, h⟩ := Run.bind_eq_ok_iff.1 h
    obtain ⟨others, hothers, h⟩ := Run.bind_eq_ok_iff.1 h
    cases h
    exact .cons ⟨rfl, s, isTemplate_of_compileAssignment ha.2 hc⟩ (ih hrest hothers)

theorem exists_assigns_of_mem {assignments : List (String × Expr)}
    {compiled : List (String × CompiledFragment)} (h : List.Forall₂ Assigns assignments compiled)
    {c : String × CompiledFragment} (hc : c ∈ compiled) : ∃ a ∈ assignments, Assigns a c := by
  induction h with
  | nil => cases hc
  | cons hfirst _ ih =>
    rcases List.mem_cons.1 hc with rfl | hc
    · exact ⟨_, List.mem_cons_self, hfirst⟩
    · obtain ⟨a, ha, hassigns⟩ := ih hc
      exact ⟨a, List.mem_cons_of_mem _ ha, hassigns⟩

theorem map_fst_of_assigns {assignments : List (String × Expr)}
    {compiled : List (String × CompiledFragment)} (h : List.Forall₂ Assigns assignments compiled) :
    compiled.map Prod.fst = assignments.map Prod.fst := by
  induction h with
  | nil => rfl
  | cons hfirst _ ih => rw [List.map_cons, List.map_cons, hfirst.1, ih]

/-- No two assignments of an update share a placeholder. -/
theorem apart_of_compileAssignments {s : Sequence} {assignments : List (String × Expr)}
    {compiled : List (String × CompiledFragment)}
    (h : compileAssignments s assignments = .ok compiled) :
    (compiled.map fun a => a.2.placeholders).Pairwise Placeholders.Apart := by
  have hkeeps := Session.keeps_assignments { sequence := s } assignments
  exact (hkeeps.meets compiled ((Session.eval_assignments _ assignments).trans h)).1

/-! ## §3 Which placeholders stand in the document -/

/-- No variable is assigned to a column that is assigned again. -/
def KeepsVariables (assignments : List (String × Expr)) : Prop :=
  assignments.Pairwise fun a later => a.2.vars ≠ [] → later.1 ≠ a.1

instance (assignments : List (String × Expr)) : Decidable (KeepsVariables assignments) :=
  inferInstanceAs (Decidable (assignments.Pairwise fun a later => a.2.vars ≠ [] → later.1 ≠ a.1))

/-- The values that an update sets. -/
def setFields (compiled : List (String × CompiledFragment)) : List (String × String) :=
  (FieldList.ofList (compiled.map fun a => (a.1, a.2.fragment))).fields

theorem exists_of_mem_setFields {compiled : List (String × CompiledFragment)}
    {field : String × String} (h : field ∈ setFields compiled) :
    ∃ a ∈ compiled, field = (a.1, a.2.fragment) := by
  obtain ⟨a, ha, heq⟩ := List.mem_map.1 (FieldList.mem_of_mem_fields_ofList h)
  exact ⟨a, ha, heq.symm⟩

theorem mem_setFields_cons {first : String × CompiledFragment}
    {rest : List (String × CompiledFragment)} {field : String × String} :
    field ∈ setFields (first :: rest) ↔
      field ∈ setFields rest ∨ field = (first.1, first.2.fragment) ∧ first.1 ∉ rest.map Prod.fst := by
  unfold setFields
  rw [List.map_cons, FieldList.mem_fields_ofList_cons, List.map_map]
  rfl

/-- A name is visible in a value that an update sets. -/
def Stands (compiled : List (String × CompiledFragment)) (name : String) : Prop :=
  ∃ field ∈ setFields compiled, name ∈ visibleNames field.2

section

variable {a : String × Expr} {first : String × CompiledFragment} {others : List (String × Expr)}
  {rest : List (String × CompiledFragment)} (hfirst : Assigns a first)
  (hrest : List.Forall₂ Assigns others rest)
  (hapart : ((first :: rest).map fun c => c.2.placeholders).Pairwise Placeholders.Apart)
  {name : String}

include hfirst hrest hapart

/-- A placeholder of the first assignment stands in the document unless its column is assigned
    again. -/
theorem stands_first_iff (hname : name ∈ first.2.placeholders.names) :
    Stands (first :: rest) name ↔ a.1 ∉ others.map Prod.fst := by
  obtain ⟨hcolumn, s, htemplate⟩ := hfirst
  rw [← hcolumn, ← map_fst_of_assigns hrest]
  constructor
  · rintro ⟨field, hfield, hvisible⟩
    rcases mem_setFields_cons.1 hfield with hfield | ⟨_, hlast⟩
    · -- another assignment does not show it
      obtain ⟨c, hc, rfl⟩ := exists_of_mem_setFields hfield
      obtain ⟨_, _, _, _, hc'⟩ := exists_assigns_of_mem hrest hc
      have hown := hc'.mem_names hvisible (htemplate.numbered name hname)
      have hother := (List.pairwise_cons.1 hapart).1 _ (List.mem_map.2 ⟨c, hc, rfl⟩)
      exact absurd hname (hother name hown)
    · exact hlast
  · intro hlast
    exact ⟨_, mem_setFields_cons.2 (.inr ⟨rfl, hlast⟩), htemplate.shows name hname⟩

/-- The first assignment does not matter for the placeholders of the others. -/
theorem stands_rest_iff {c : String × CompiledFragment} (hc : c ∈ rest)
    (hname : name ∈ c.2.placeholders.names) :
    Stands (first :: rest) name ↔ Stands rest name := by
  obtain ⟨_, s, htemplate⟩ := hfirst
  obtain ⟨_, _, _, _, hc'⟩ := exists_assigns_of_mem hrest hc
  constructor
  · rintro ⟨field, hfield, hvisible⟩
    rcases mem_setFields_cons.1 hfield with hfield | ⟨rfl, _⟩
    · exact ⟨field, hfield, hvisible⟩
    · have hown := htemplate.mem_names hvisible (hc'.numbered name hname)
      have hother := (List.pairwise_cons.1 hapart).1 _ (List.mem_map.2 ⟨c, hc, rfl⟩)
      exact absurd hown (hother name hname)
  · rintro ⟨field, hfield, hvisible⟩
    exact ⟨field, mem_setFields_cons.2 (.inl hfield), hvisible⟩

end

/-- **A placeholder that does not stand in the document** belongs to an assignment that a later one
    overwrites. -/
theorem exists_overwritten {assignments : List (String × Expr)}
    {compiled : List (String × CompiledFragment)} (h : List.Forall₂ Assigns assignments compiled)
    (hapart : (compiled.map fun a => a.2.placeholders).Pairwise Placeholders.Apart)
    {c : String × CompiledFragment} (hc : c ∈ compiled) {name : String}
    (hname : name ∈ c.2.placeholders.names) (hstands : ¬ Stands compiled name) :
    ∃ before a after, assignments = before ++ a :: after ∧ a.1 ∈ after.map Prod.fst ∧
      Assigns a c := by
  induction h with
  | nil => cases hc
  | @cons a first others rest hfirst hrest ih =>
    rcases List.mem_cons.1 hc with rfl | hc
    · rw [stands_first_iff hfirst hrest hapart hname, not_not] at hstands
      exact ⟨[], a, others, rfl, hstands, hfirst⟩
    · rw [stands_rest_iff hfirst hrest hapart hc hname] at hstands
      obtain ⟨before, a', after, rfl, hagain, hassigns⟩ :=
        ih (List.pairwise_cons.1 hapart).2 hc hstands
      exact ⟨a :: before, a', after, rfl, hagain, hassigns⟩

/-- **Every placeholder stands in the document** exactly if no variable is overwritten. -/
theorem forall_stands_iff {assignments : List (String × Expr)}
    {compiled : List (String × CompiledFragment)} (h : List.Forall₂ Assigns assignments compiled)
    (hapart : (compiled.map fun a => a.2.placeholders).Pairwise Placeholders.Apart) :
    (∀ c ∈ compiled, ∀ name ∈ c.2.placeholders.names, Stands compiled name) ↔
      KeepsVariables assignments := by
  -- the first assignment is overwritten by the rest or not at all, so the induction goes from the end
  induction h with
  | nil => simp [KeepsVariables]
  | @cons a first others rest hfirst hrest ih =>
    obtain ⟨_, s, htemplate⟩ := id hfirst
    unfold KeepsVariables at ih ⊢
    rw [List.forall_mem_cons, List.pairwise_cons, ← ih (List.pairwise_cons.1 hapart).2]
    refine and_congr ⟨?_, ?_⟩ (forall₂_congr fun c hc => forall₂_congr fun name hname =>
      stands_rest_iff hfirst hrest hapart hc hname)
    · intro hstands later hlater hvars heq
      obtain ⟨name, hname⟩ := List.exists_mem_of_ne_nil _ (mt htemplate.names_eq_nil_iff.1 hvars)
      have hlast := (stands_first_iff hfirst hrest hapart hname).1 (hstands name hname)
      exact hlast (List.mem_map.2 ⟨later, hlater, heq⟩)
    · intro hlast name hname
      rw [stands_first_iff hfirst hrest hapart hname]
      intro hagain
      obtain ⟨later, hlater, heq⟩ := List.mem_map.1 hagain
      have hvars := mt htemplate.names_eq_nil_iff.2 (List.ne_nil_of_mem hname)
      exact hlast later hlater hvars heq

/-! ## §4 The document -/

/-- The update of compiled assignments: one document and one table for all of them. -/
def Update.ofAssignments (compiled : List (String × CompiledFragment)) : Update where
  fragment := singleton "$set" (document (setFields compiled))
  placeholders := .joinedAll .empty (compiled.map fun c => c.2.placeholders)

theorem mem_names_ofAssignments {compiled : List (String × CompiledFragment)} {name : String} :
    name ∈ (Update.ofAssignments compiled).placeholders.names ↔
      ∃ c ∈ compiled, name ∈ c.2.placeholders.names := by
  constructor
  · intro hname
    rcases Placeholders.mem_names_joinedAll.1 hname with hname | ⟨p, hp, hname⟩
    · cases hname
    · obtain ⟨c, hc, rfl⟩ := List.mem_map.1 hp
      exact ⟨c, hc, hname⟩
  · rintro ⟨c, hc, hname⟩
    exact Placeholders.mem_names_joinedAll.2 (.inr ⟨_, List.mem_map.2 ⟨c, hc, rfl⟩, hname⟩)

section

variable {assignments : List (String × Expr)} {compiled : List (String × CompiledFragment)}
  (h : List.Forall₂ Assigns assignments compiled) {b : Bindings}

include h

theorem scannable_setFields (hcolumns : ∀ a ∈ assignments, QuoteFree a.1) :
    Scannable (setFields compiled) := by
  intro field hfield
  obtain ⟨c, hc, rfl⟩ := exists_of_mem_setFields hfield
  obtain ⟨a, ha, hcolumn, s, htemplate⟩ := exists_assigns_of_mem h hc
  exact ⟨hcolumn ▸ hcolumns a ha, htemplate.balanced⟩

theorem numbered_of_assigns : (Update.ofAssignments compiled).placeholders.Numbered := by
  apply Placeholders.numbered_joinedAll
  refine List.forall_mem_map.2 fun c hc => ?_
  obtain ⟨_, _, _, _, htemplate⟩ := exists_assigns_of_mem h hc
  exact htemplate.numbered

theorem supplied_ofAssignments_iff
    (hapart : (compiled.map fun c => c.2.placeholders).Pairwise Placeholders.Apart) :
    (Update.ofAssignments compiled).placeholders.Supplied b ↔
      ∀ a ∈ assignments, ∀ v ∈ a.2.vars, b.contains v.key := by
  rw [Update.ofAssignments, Placeholders.supplied_joinedAll_iff hapart, List.forall_mem_map]
  clear hapart
  induction h with
  | nil => simp
  | cons hfirst _ ih =>
    obtain ⟨_, _, htemplate⟩ := hfirst
    rw [List.forall_mem_cons, List.forall_mem_cons, htemplate.supplied_iff, ih]

/-- Each assignment is written with its values, though all of them share one table. -/
theorem map_replaceNames_eq {p : Placeholders} (hp : p.Numbered)
    (hholds : ∀ c ∈ compiled, ∀ name v, c.2.placeholders.get? name = some v →
      p.get? name = some v)
    (hsupplied : ∀ a ∈ assignments, ∀ v ∈ a.2.vars, b.contains v.key) :
    (compiled.map fun c => (c.1, c.2.fragment)).map
        (Prod.map id (replaceNames (Resolver.fresh p b).valueText?)) =
      assignments.map fun a => (a.1, a.2.assignedText b) := by
  induction h with
  | nil => rfl
  | cons hfirst _ ih =>
    obtain ⟨hcolumn, _, htemplate⟩ := hfirst
    obtain ⟨hholdsFirst, hholdsRest⟩ := List.forall_mem_cons.1 hholds
    obtain ⟨hsuppliedFirst, hsuppliedRest⟩ := List.forall_mem_cons.1 hsupplied
    rw [List.map_cons, List.map_cons, List.map_cons, ih hholdsRest hsuppliedRest, Prod.map_apply,
      htemplate.replaceNames_eq hp hholdsFirst hsuppliedFirst, hcolumn]
    rfl

variable (hcolumns : ∀ a ∈ assignments, QuoteFree a.1)

include hcolumns

theorem mem_visibleNames_ofAssignments {name : String} :
    name ∈ visibleNames (Update.ofAssignments compiled).fragment ↔ Stands compiled name := by
  have hscannable := scannable_setFields h hcolumns
  rw [Update.ofAssignments,
    visibleNames_singleton (by decide : QuoteFree "$set") (balanced_document hscannable),
    visibleNames_document hscannable, List.mem_flatMap]
  rfl

variable (hapart : (compiled.map fun c => c.2.placeholders).Pairwise Placeholders.Apart)

include hapart

/-- The document shows every placeholder exactly if no variable is overwritten. -/
theorem forall_visible_iff :
    (∀ name ∈ (Update.ofAssignments compiled).placeholders.names,
        name ∈ visibleNames (Update.ofAssignments compiled).fragment) ↔
      KeepsVariables assignments := by
  rw [← forall_stands_iff h hapart]
  constructor
  · intro hall c hc name hname
    rw [← mem_visibleNames_ofAssignments h hcolumns]
    exact hall name (mem_names_ofAssignments.2 ⟨c, hc, hname⟩)
  · intro hall name hname
    rw [mem_visibleNames_ofAssignments h hcolumns]
    obtain ⟨c, hc, hname⟩ := mem_names_ofAssignments.1 hname
    exact hall c hc name hname

/-- The document with its values sets each column to the last value assigned to it. -/
theorem replaceNames_ofAssignments
    (hsupplied : ∀ a ∈ assignments, ∀ v ∈ a.2.vars, b.contains v.key) :
    replaceNames (Resolver.fresh (Update.ofAssignments compiled).placeholders b).valueText?
        (Update.ofAssignments compiled).fragment =
      singleton "$set"
        (FieldList.ofList (assignments.map fun a => (a.1, a.2.assignedText b))).render := by
  have hscannable := scannable_setFields h hcolumns
  have hholds : ∀ c ∈ compiled, ∀ name v, c.2.placeholders.get? name = some v →
      (Update.ofAssignments compiled).placeholders.get? name = some v := fun c hc name v hv =>
    Placeholders.get?_joinedAll_of_mem hapart (List.mem_map.2 ⟨c, hc, rfl⟩) hv
  have hfields := map_replaceNames_eq h (numbered_of_assigns h) hholds hsupplied
  rw [FieldList.render, ← hfields, FieldList.fields_ofList_map]
  change replaceNames _ (singleton "$set" (document (setFields compiled))) = _
  rw [replaceNames_singleton _ (by decide : QuoteFree "$set") (balanced_document hscannable),
    replaceNames_document hscannable]
  rfl

end

/-- **What an update compiles to**: the document of its assignments, each of which is a template. -/
theorem Session.exists_assigns_of_eval_update {s : Session} {assignments : List (String × Expr)}
    {u : Update} (hu : (update assignments).eval s = .ok u)
    (hinert : InertAssignments assignments) :
    ∃ compiled, List.Forall₂ Assigns assignments compiled ∧
      (compiled.map fun c => c.2.placeholders).Pairwise Placeholders.Apart ∧
        u = .ofAssignments compiled := by
  rw [eval_update] at hu
  obtain ⟨compiled, hcompiled, hu⟩ := Run.bind_eq_ok_iff.1 hu
  have hapart := apart_of_compileAssignments hcompiled
  have hne : compiled ≠ [] := by
    rintro rfl
    cases hu
  rw [Update.assemble_of_apart hne hapart] at hu
  cases hu
  exact ⟨compiled, forall₂_assigns hinert hcompiled, hapart, rfl⟩

/-- **Resolving a compiled update** succeeds exactly if it overwrites no variable and every variable
    has a value.  The document sets each column to the last value assigned to it. -/
theorem Session.resolve_update_eq_ok_iff {s : Session} {assignments : List (String × Expr)}
    {u : Update} (hu : (update assignments).eval s = .ok u) (hinert : InertAssignments assignments)
    {b : Bindings} {text : String} :
    u.resolve b = .ok text ↔
      KeepsVariables assignments ∧ (∀ a ∈ assignments, ∀ v ∈ a.2.vars, b.contains v.key) ∧
        text = singleton "$set"
          (FieldList.ofList (assignments.map fun a => (a.1, a.2.assignedText b))).render := by
  obtain ⟨compiled, hassigns, hapart, rfl⟩ := exists_assigns_of_eval_update hu hinert
  have hcolumns : ∀ a ∈ assignments, QuoteFree a.1 := fun a ha => (hinert a ha).1
  rw [Update.resolve, Placeholders.resolve_eq_ok_iff, supplied_ofAssignments_iff hassigns hapart,
    forall_visible_iff hassigns hcolumns hapart]
  refine and_congr_right fun _ => and_congr_right fun hvars => ?_
  rw [replaceNames_ofAssignments hassigns hcolumns hapart hvars]

end QueryPipeline
