import QueryPipeline.Proofs.Assignment.LateBinding

/-!
# Updates that assign a column twice

An update sets each column once, to the last value assigned to it.  The values before the last one
leave no trace in the document, but their variables stay in the table of placeholders.  Resolving asks
for every placeholder of the table in the document, so an update in which a variable is overwritten is
compiled and can never be resolved, whatever values are supplied.

## Main statements

- `Session.resolve_update_or_overwritten`: an update is resolved to its document, or an overwritten
  variable is reported.
-/

namespace QueryPipeline

/-- **An overwritten variable is reported.**  A compiled update whose variables all have a value is
    resolved exactly if no variable is assigned to a column that is assigned again:

    - then the document sets each column once, in the order of first assignment, to the last value
      assigned to it;
    - otherwise the placeholder of an overwritten variable is reported as unreached. -/
theorem Session.resolve_update_or_overwritten {s : Session} {assignments : List (String × Expr)}
    {u : Update} (hu : (update assignments).eval s = .ok u) (hinert : InertAssignments assignments)
    {b : Bindings} (hb : ∀ a ∈ assignments, ∀ v ∈ a.2.vars, b.contains v.key) :
    (KeepsVariables assignments →
      ∃ fields, u.resolve b = .ok (singleton "$set" (document fields)) ∧
        fields.map Prod.fst = (assignments.map Prod.fst).eraseDups ∧
        ∀ before a after, assignments = before ++ a :: after → a.1 ∉ after.map Prod.fst →
          (a.1, a.2.assignedText b) ∈ fields) ∧
    (¬ KeepsVariables assignments →
      ∃ name v before a after, assignments = before ++ a :: after ∧ a.1 ∈ after.map Prod.fst ∧
        v ∈ a.2.vars ∧ u.placeholders.get? name = some v ∧
        u.resolve b = .error (.internal (.unreachedPlaceholder name))) := by
  refine ⟨?_, ?_⟩
  · intro hkeeps
    have hresolve := (resolve_update_eq_ok_iff hu hinert).2 ⟨hkeeps, hb, rfl⟩
    refine ⟨_, hresolve, ?_, ?_⟩
    · refine (FieldList.names_ofList _).trans (congrArg List.eraseDups ?_)
      simp
    · rintro before a after rfl hlast
      rw [FieldList.mem_fields_ofList, ← FieldList.get?_ofList, List.map_append, List.map_cons]
      apply FieldList.get?_ofList_of_last
      simpa using hlast
  · intro hoverwrites
    obtain ⟨compiled, hassigns, hapart, rfl⟩ := exists_assigns_of_eval_update hu hinert
    have hcolumns : ∀ a ∈ assignments, QuoteFree a.1 := fun a ha => (hinert a ha).1
    rw [← forall_visible_iff hassigns hcolumns hapart] at hoverwrites
    have hsupplied := (supplied_ofAssignments_iff hassigns hapart).2 hb
    obtain ⟨name, v, hv, hhidden, hresolve⟩ := Placeholders.resolve_of_hidden hsupplied hoverwrites
    rw [mem_visibleNames_ofAssignments hassigns hcolumns] at hhidden
    -- the placeholder comes from an assignment, and that one is overwritten
    obtain ⟨_, htable, hv'⟩ := (Placeholders.get?_joinedAll_iff hapart).1 hv
    obtain ⟨c, hc, rfl⟩ := List.mem_map.1 htable
    obtain ⟨before, a, after, hsplit, hagain, _, _, htemplate⟩ :=
      exists_overwritten hassigns hapart hc (c.2.placeholders.mem_names_of_get? hv') hhidden
    have hvars : v ∈ a.2.vars :=
      htemplate.toNumberedFrom.forall_get?_iff.2 (fun _ hmem => hmem) name v hv'
    exact ⟨name, v, before, a, after, hsplit, hagain, hvars, hv, hresolve⟩

/-- A variable and two constants, of which one overwrites the other. -/
def constantOverwritten : List (String × Expr) :=
  [("name", .constant (.text "draft") .string), ("price", .variable { field := "low", type := .int }),
    ("name", .constant (.text "final") .string)]

theorem Session.resolve_update_constantOverwritten :
    ∃ u fields, (update constantOverwritten).eval {} = .ok u ∧
      u.resolve (NameTable.empty.insert "low" (.int 7)) = .ok (singleton "$set" (document fields)) ∧
      fields.map Prod.fst = ["name", "price"] ∧ ("name", "'final'") ∈ fields ∧
      ("price", "7") ∈ fields := by
  have hcompiles : ((update constantOverwritten).eval {}).isOk = true := by decide +kernel
  obtain ⟨u, hu⟩ := Run.exists_eq_ok hcompiles
  obtain ⟨hresolved, _⟩ := resolve_update_or_overwritten hu (by decide +kernel)
    (b := NameTable.empty.insert "low" (.int 7)) (by decide +kernel)
  obtain ⟨fields, htext, hnames, hlast⟩ := hresolved (by decide)
  exact ⟨u, fields, hu, htext, hnames.trans (by decide +kernel),
    hlast [_, _] _ [] rfl nofun, hlast [_] _ [_] rfl (by decide)⟩

/-- A variable that a constant overwrites. -/
def variableOverwritten : List (String × Expr) :=
  [("price", .variable { field := "low", type := .int }), ("price", .constant (.int 2) .int)]

/-- An update of inert assignments that compiles and cannot be resolved, though its only variable has
    a value and does not stand in its document. -/
theorem Session.resolve_update_variableOverwritten :
    InertAssignments variableOverwritten ∧
      (∀ a ∈ variableOverwritten, ∀ v ∈ a.2.vars,
        (NameTable.empty.insert "low" (Value.int 1)).contains v.key) ∧
      ∃ u, (update variableOverwritten).eval {} = .ok u ∧
        u.fragment = "\x7b'$set': \x7b'price': 2\x7d\x7d" ∧
        u.resolve (NameTable.empty.insert "low" (.int 1)) =
          .error (.internal (.unreachedPlaceholder "var1")) := by
  have hcompiles : ((update variableOverwritten).eval {}).isOk = true := by decide +kernel
  have hfragment : ((update variableOverwritten).eval {}).map Update.fragment =
      .ok "\x7b'$set': \x7b'price': 2\x7d\x7d" := by decide +kernel
  have hresolve : ((update variableOverwritten).eval {} >>= fun u =>
      u.resolve (NameTable.empty.insert "low" (.int 1))) =
      .error (.internal (.unreachedPlaceholder "var1")) := by decide +kernel
  obtain ⟨u, hu⟩ := Run.exists_eq_ok hcompiles
  rw [hu] at hfragment hresolve
  exact ⟨by decide +kernel, by decide +kernel, u, hu, Except.ok.inj hfragment, hresolve⟩

end QueryPipeline
