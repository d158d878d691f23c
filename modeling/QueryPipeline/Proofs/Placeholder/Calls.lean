import QueryPipeline.Proofs.Placeholder.Outcome

/-!
# Resolvers that go on after a failure

A resolver may be asked to substitute one fragment after the other, and asked again after it has
failed.  A call that fails has marked the names before the one it failed at, although the text they
stood in is never returned.  The check at the end can be trusted all the same: bindings do not
change, so what made one call fail is never marked by any other.

## Main definitions

- `Resolver.calls`: fragments substituted one after the other, whatever becomes of them.

## Main statements

- `Resolver.exec_substitute_cases`: what one call does.
- `Resolver.exists_mark_calls`: what calls mark has a value, by induction over the calls.
- `Resolver.finish_calls_eq_ok_iff`: when the check at the end passes.
-/

namespace QueryPipeline

namespace Resolver

/-! ## §1 One call -/

/-- What a call does to a resolver: it replaces and marks every visible placeholder, or fails at the
    first one without a value, with those before it marked. -/
theorem exec_substitute_cases (r : Resolver) (fragment : String) :
    ((∀ name ∈ visibleNames fragment, r.missing? name = none) ∧
      (substitute fragment).exec r =
        (.ok (replaceNames r.valueText? fragment), r.mark (visibleNames fragment))) ∨
    ∃ earlier name later err, visibleNames fragment = earlier ++ name :: later ∧
      (∀ other ∈ earlier, r.missing? other = none) ∧ r.missing? name = some err ∧
      (substitute fragment).exec r = (.error err, r.mark earlier) := by
  cases hfirst : (visibleNames fragment).findSome? r.missing? with
  | none =>
    have hsupplied := List.findSome?_eq_none_iff.1 hfirst
    exact .inl ⟨hsupplied, exec_substitute_of_supplied hsupplied⟩
  | some err =>
    obtain ⟨earlier, name, later, hnames, hmissing, hearlier⟩ :=
      List.findSome?_eq_some_iff.1 hfirst
    exact .inr ⟨earlier, name, later, err, hnames, hearlier, hmissing,
      exec_substitute_of_missing hnames hearlier hmissing⟩

/-- Whatever becomes of a call, it marks names that have a value, and no others. -/
theorem exists_mark_substitute (r : Resolver) (fragment : String) :
    ∃ names, (∀ name ∈ names, r.missing? name = none) ∧
      ((substitute fragment).exec r).2 = r.mark names := by
  rcases exec_substitute_cases r fragment with
    ⟨hsupplied, hexec⟩ | ⟨earlier, _, _, _, _, hearlier, _, hexec⟩
  · exact ⟨_, hsupplied, by rw [hexec]⟩
  · exact ⟨earlier, hearlier, by rw [hexec]⟩

/-- A placeholder that is not missed has a value. -/
theorem exists_valueText?_of_supplied {p : Placeholders} {b : Bindings} {name : String}
    (hname : name ∈ p.names) (h : (fresh p b).missing? name = none) :
    ∃ value, (fresh p b).valueText? name = some value := by
  obtain ⟨v, hv⟩ := p.exists_get?_of_mem_names hname
  cases hvalue : b.get? v.key with
  | none => exact absurd ⟨v, hv, hvalue⟩ (Placeholders.missing?_eq_none_iff.1 h)
  | some value => exact ⟨value.render, by simp [valueText?, hv, hvalue]⟩

/-- A call fails if the fragment shows a placeholder without a value. -/
theorem exists_error_of_missing {r : Resolver} {fragment name : String} {err : CompileError}
    (hname : name ∈ visibleNames fragment) (hmissing : r.missing? name = some err) :
    ∃ err', ((substitute fragment).exec r).1 = .error err' := by
  rcases exec_substitute_cases r fragment with
    ⟨hsupplied, _⟩ | ⟨_, _, _, err', _, _, _, hexec⟩
  · rw [hsupplied name hname] at hmissing
    cases hmissing
  · exact ⟨err', by rw [hexec]⟩

/-! ## §2 Many calls -/

/-- Fragments substituted one after the other, whatever becomes of them: each with its outcome, and
    the resolver that is left. -/
def calls (r : Resolver) : List String → List (String × Except CompileError String) × Resolver
  | [] => ([], r)
  | fragment :: rest =>
    let call := (substitute fragment).exec r
    let others := call.2.calls rest
    ((fragment, call.1) :: others.1, others.2)

/-- If nothing that is shown lacks a value, no call fails and everything shown is marked. -/
theorem calls_of_supplied {fragments : List String} {r : Resolver}
    (h : ∀ name ∈ fragments.flatMap visibleNames, r.missing? name = none) :
    r.calls fragments =
      (fragments.map fun fragment => (fragment, .ok (replaceNames r.valueText? fragment)),
        r.mark (fragments.flatMap visibleNames)) := by
  induction fragments generalizing r with
  | nil => rfl
  | cons first rest ih =>
    rw [List.flatMap_cons] at h ⊢
    obtain ⟨hfirst, hrest⟩ := List.forall_mem_append.1 h
    have hnext : (r.mark (visibleNames first)).calls rest =
        (rest.map fun fragment => (fragment, .ok (replaceNames r.valueText? fragment)),
          (r.mark (visibleNames first)).mark (rest.flatMap visibleNames)) := ih hrest
    rw [calls, exec_substitute_of_supplied hfirst]
    simp only [hnext, List.map_cons, mark_append]

/-- **What calls mark has a value**, also where they fail. -/
theorem exists_mark_calls (r : Resolver) (fragments : List String) :
    ∃ names, (∀ name ∈ names, r.missing? name = none) ∧ (r.calls fragments).2 = r.mark names := by
  induction fragments generalizing r with
  | nil => exact ⟨[], by simp, by simp [calls, mark]⟩
  | cons first rest ih =>
    obtain ⟨names, hnames, hfirst⟩ := exists_mark_substitute r first
    -- marking changes no binding, so the later calls see the same missing values
    obtain ⟨others, hothers, hrest⟩ := ih (r.mark names)
    refine ⟨names ++ others, List.forall_mem_append.2 ⟨hnames, hothers⟩, ?_⟩
    rw [mark_append, ← hrest, ← hfirst]
    rfl

/-- A fragment that shows a placeholder without a value fails, at whatever point it is called. -/
theorem exists_failed_call {r : Resolver} {fragments : List String} {fragment name : String}
    {err : CompileError} (hfragment : fragment ∈ fragments)
    (hname : name ∈ visibleNames fragment) (hmissing : r.missing? name = some err) :
    ∃ err', (fragment, .error err') ∈ (r.calls fragments).1 := by
  induction fragments generalizing r with
  | nil => cases hfragment
  | cons first rest ih =>
    rcases List.mem_cons.1 hfragment with rfl | hfragment
    · obtain ⟨err', herr'⟩ := exists_error_of_missing hname hmissing
      refine ⟨err', List.mem_cons.2 (.inl ?_)⟩
      rw [herr']
    · obtain ⟨names, _, hnext⟩ := exists_mark_substitute r first
      have hsame : ((substitute first).exec r).2.missing? name = some err := by
        rw [hnext]
        exact hmissing
      obtain ⟨err', herr'⟩ := ih hfragment hsame
      exact ⟨err', List.mem_cons_of_mem _ herr'⟩

/-- After calls of which none could fail, the check passes if every placeholder was shown. -/
theorem finish_mark_eq_ok_iff {p : Placeholders} {b : Bindings} {fragments : List String} :
    ((fresh p b).mark (fragments.flatMap visibleNames)).finish = .ok () ↔
      ∀ name ∈ p.names, ShownIn fragments name := by
  constructor
  · intro h name hname
    have hreplaced := replaced_of_finish h name hname
    rw [mem_replaced_mark, mem_flatMap_visibleNames_iff] at hreplaced
    exact hreplaced.1
  · intro h
    apply finish_of_replaced
    intro name hname
    rw [mem_replaced_mark, mem_flatMap_visibleNames_iff]
    exact ⟨h name hname, hname⟩

/-- A name that made a call fail is never marked, so the check does not pass. -/
theorem finish_calls_ne_ok {p : Placeholders} {b : Bindings} {fragments : List String}
    {name : String} {err : CompileError} (h : (fresh p b).missing? name = some err) :
    ((fresh p b).calls fragments).2.finish ≠ .ok () := by
  intro hfinish
  obtain ⟨v, hv, _⟩ := Placeholders.exists_lacking_of_missing? h
  obtain ⟨names, hnames, hcalls⟩ := exists_mark_calls (fresh p b) fragments
  rw [hcalls] at hfinish
  have hreplaced := replaced_of_finish hfinish name (p.mem_names_of_get? hv)
  have hsupplied := hnames name (mem_replaced_mark.1 hreplaced).1
  cases hsupplied.symm.trans h

/-- **When the check passes after any calls.** No call has failed, and each placeholder is shown in
    a fragment that was returned with its placeholders replaced by their values. -/
theorem finish_calls_eq_ok_iff (p : Placeholders) (b : Bindings) (fragments : List String) :
    ((fresh p b).calls fragments).2.finish = .ok () ↔
      (∀ call ∈ ((fresh p b).calls fragments).1, ∃ text, call.2 = .ok text) ∧
      ∀ name ∈ p.names, ∃ fragment text before after value,
        (fragment, .ok text) ∈ ((fresh p b).calls fragments).1 ∧
        Shows fragment before name after ∧ (fresh p b).valueText? name = some value ∧
        Rewrites (fresh p b).valueText? fragment text := by
  by_cases hnone : ∀ name ∈ fragments.flatMap visibleNames, (fresh p b).missing? name = none
  · rw [calls_of_supplied hnone, finish_mark_eq_ok_iff]
    constructor
    · intro hshown
      refine ⟨fun call hcall => ?_, fun name hname => ?_⟩
      · obtain ⟨fragment, _, rfl⟩ := List.mem_map.1 hcall
        exact ⟨_, rfl⟩
      · obtain ⟨fragment, hfragment, before, after, hplace⟩ := hshown name hname
        have hmissing := hnone name
          (mem_flatMap_visibleNames_iff.2 ⟨fragment, hfragment, before, after, hplace⟩)
        obtain ⟨value, hvalue⟩ := exists_valueText?_of_supplied hname hmissing
        exact ⟨fragment, _, before, after, value, List.mem_map.2 ⟨fragment, hfragment, rfl⟩, hplace,
          hvalue, rewrites_iff.2 rfl⟩
    · rintro ⟨_, hreplaced⟩ name hname
      obtain ⟨fragment, text, before, after, _, hcall, hplace, _⟩ := hreplaced name hname
      obtain ⟨_, hfragment, heq⟩ := List.mem_map.1 hcall
      cases heq
      exact ⟨fragment, hfragment, before, after, hplace⟩
  · -- some call fails, and neither side holds
    obtain ⟨before, fragment, after, earlier, name, later, err, rfl, _, hnames, _, hmissing⟩ :=
      exists_first_missing hnone
    constructor
    · intro hfinish
      exact absurd hfinish (finish_calls_ne_ok hmissing)
    · rintro ⟨hok, _⟩
      have hfragment : fragment ∈ before ++ fragment :: after := by simp
      have hname : name ∈ visibleNames fragment := by simp [hnames]
      obtain ⟨err', hfailed⟩ := exists_failed_call hfragment hname hmissing
      obtain ⟨text, htext⟩ := hok _ hfailed
      cases htext

end Resolver

end QueryPipeline
