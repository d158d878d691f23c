import QueryPipeline.Placeholder.Resolver
import QueryPipeline.Proofs.Fragment.Scan

/-!
# What resolving does to a fragment

Resolving goes through the visible names of a fragment in order.  It fails at the first placeholder
without a supplied value; if there is none, it replaces every visible placeholder and marks it.

## Main definitions

- `Resolver.missing?`, `Resolver.valueText?`: what a resolver makes of a name.
- `Resolver.mark`: a resolver that has replaced some names.

## Main statements

- `Resolver.exec_substitute_of_supplied`, `Resolver.exec_substitute_of_missing`: one fragment.
- `Placeholders.resolve_of_supplied`, `Placeholders.resolve_of_missing`,
  `Placeholders.resolve_of_hidden`: one fragment and the check at the end.
- `Placeholders.resolve_eq_ok_iff`, `Placeholders.resolveAll_eq_ok_iff`: when resolving succeeds.
-/

namespace QueryPipeline

open Segment

namespace Resolver

/-- A resolver that has replaced nothing yet. -/
abbrev fresh (p : Placeholders) (b : Bindings) : Resolver :=
  { placeholders := p, bindings := b }

/-! ## §1 One name -/

/-- The error of a name that is a placeholder without a supplied value. -/
def missing? (r : Resolver) (name : String) : Option CompileError :=
  (r.placeholders.get? name).bind fun v =>
    if r.bindings.contains v.key then none else some (.missingBinding name v.key)

/-- The text that a name is replaced by, if it is a placeholder with a supplied value. -/
def valueText? (r : Resolver) (name : String) : Option String :=
  (r.placeholders.get? name).bind fun v => (r.bindings.get? v.key).map Value.render

/-- The resolver after it has replaced the placeholders among some names. -/
def mark (r : Resolver) (names : List String) : Resolver :=
  { r with replaced := (names.filter r.placeholders.contains).reverse ++ r.replaced }

theorem mark_append (r : Resolver) (first second : List String) :
    r.mark (first ++ second) = (r.mark first).mark second := by
  simp [mark]

theorem exec_replace_of_supplied {r : Resolver} {name : String} (h : r.missing? name = none) :
    (replace name).exec r = (.ok (r.valueText? name), r.mark [name]) := by
  unfold replace
  rw [Run.exec_bind_ok (Run.exec_get r)]
  cases hname : r.placeholders.get? name with
  | none => simp [valueText?, mark, NameTable.contains, hname]
  | some v =>
    cases hvalue : r.bindings.get? v.key with
    | none => simp [missing?, NameTable.contains, hname, hvalue] at h
    | some value =>
      -- the only case that changes the resolver
      simp only
      rw [hvalue]
      simp only
      rw [Run.exec_bind_ok (Run.exec_set r _)]
      simp [valueText?, mark, NameTable.contains, hname, hvalue]

theorem exec_replace_of_missing {r : Resolver} {name : String} {err : CompileError}
    (h : r.missing? name = some err) : (replace name).exec r = (.error err, r) := by
  unfold replace
  rw [Run.exec_bind_ok (Run.exec_get r)]
  cases hname : r.placeholders.get? name with
  | none => simp [missing?, hname] at h
  | some v =>
    cases hvalue : r.bindings.get? v.key with
    | none => simpa [missing?, NameTable.contains, hname, hvalue] using h
    | some value => simp [missing?, NameTable.contains, hname, hvalue] at h

/-! ## §2 One fragment -/

/-- What substituting does with one segment. -/
def rewriteSegment (s : Segment) : Run Resolver String :=
  match s.name? with
  | none => pure s.text
  | some name => do
    match ← replace name with
    | some replacement => pure replacement
    | none => pure s.text

theorem substitute_eq (fragment : String) :
    substitute fragment = (do return String.join (← (ofText fragment).mapM rewriteSegment)) :=
  rfl

theorem exec_rewriteSegment_of_supplied {r : Resolver} {s : Segment}
    (h : ∀ name ∈ s.name?, r.missing? name = none) :
    (rewriteSegment s).exec r = (.ok (s.rewrite r.valueText?), r.mark s.name?.toList) := by
  unfold rewriteSegment Segment.rewrite
  cases hname : s.name? with
  | none => rfl
  | some name =>
    rw [hname] at h
    simp only
    rw [Run.exec_bind_ok (exec_replace_of_supplied (h name rfl))]
    cases r.valueText? name <;> rfl

theorem exec_rewriteSegment_of_missing {r : Resolver} {s : Segment} {name : String}
    {err : CompileError} (hname : s.name? = some name) (h : r.missing? name = some err) :
    (rewriteSegment s).exec r = (.error err, r) := by
  unfold rewriteSegment
  rw [hname]
  exact Run.exec_bind_error (exec_replace_of_missing h)

/-- Segments whose placeholders all have a value are replaced one after the other. -/
theorem exec_mapM_rewriteSegment {segments : List Segment} {r : Resolver}
    (h : ∀ name ∈ segments.filterMap name?, r.missing? name = none) :
    (segments.mapM rewriteSegment).exec r =
      (.ok (segments.map (Segment.rewrite r.valueText?)), r.mark (segments.filterMap name?)) := by
  induction segments generalizing r with
  | nil => rfl
  | cons s rest ih =>
    have hs : ∀ name ∈ s.name?, r.missing? name = none := by
      intro name hname
      exact h name (List.mem_filterMap.2 ⟨s, List.mem_cons_self, hname⟩)
    have hrest : ∀ name ∈ rest.filterMap name?, (r.mark s.name?.toList).missing? name = none := by
      intro name hname
      obtain ⟨t, ht, hname⟩ := List.mem_filterMap.1 hname
      exact h name (List.mem_filterMap.2 ⟨t, List.mem_cons_of_mem _ ht, hname⟩)
    have hnames : (s :: rest).filterMap name? = s.name?.toList ++ rest.filterMap name? := by
      rw [List.filterMap_cons]
      cases s.name? <;> rfl
    -- marking does not change what is supplied, so the rest goes as before
    rw [List.mapM_cons, Run.exec_bind_ok (exec_rewriteSegment_of_supplied hs),
      Run.exec_bind_ok (ih hrest), hnames, mark_append]
    rfl

/-- The first placeholder without a value decides.  What was replaced before it stays marked. -/
theorem exec_mapM_rewriteSegment_of_missing {segments : List Segment} {r : Resolver}
    {earlier later : List String} {name : String} {err : CompileError}
    (hnames : segments.filterMap name? = earlier ++ name :: later)
    (hearlier : ∀ other ∈ earlier, r.missing? other = none) (hmissing : r.missing? name = some err) :
    (segments.mapM rewriteSegment).exec r = (.error err, r.mark earlier) := by
  -- the segments before the one that fails
  obtain ⟨left, rest, rfl, rfl, hrest⟩ := List.filterMap_eq_append_iff.1 hnames
  obtain ⟨skipped, s, right, rfl, hskipped, hname, rfl⟩ := List.filterMap_eq_cons_iff.1 hrest
  have hnone : skipped.filterMap name? = [] := List.filterMap_eq_nil_iff.2 hskipped
  have hbefore : (left ++ skipped).filterMap name? = left.filterMap name? := by
    rw [List.filterMap_append, hnone, List.append_nil]
  rw [← List.append_assoc, List.mapM_append, List.mapM_cons]
  rw [← hbefore] at hearlier ⊢
  have hfails : (rewriteSegment s).exec (r.mark ((left ++ skipped).filterMap name?)) =
      (.error err, r.mark ((left ++ skipped).filterMap name?)) :=
    exec_rewriteSegment_of_missing hname hmissing
  rw [Run.exec_bind_ok (exec_mapM_rewriteSegment hearlier)]
  exact Run.exec_bind_error (Run.exec_bind_error hfails)

/-- **A fragment whose visible placeholders all have a value** is rewritten in one pass. -/
theorem exec_substitute_of_supplied {r : Resolver} {fragment : String}
    (h : ∀ name ∈ visibleNames fragment, r.missing? name = none) :
    (substitute fragment).exec r =
      (.ok (replaceNames r.valueText? fragment), r.mark (visibleNames fragment)) := by
  rw [substitute_eq, Run.exec_bind_ok (exec_mapM_rewriteSegment h)]
  rfl

/-- **A fragment with a placeholder without value** fails at the first one. -/
theorem exec_substitute_of_missing {r : Resolver} {fragment name : String}
    {earlier later : List String} {err : CompileError}
    (hnames : visibleNames fragment = earlier ++ name :: later)
    (hearlier : ∀ other ∈ earlier, r.missing? other = none) (hmissing : r.missing? name = some err) :
    (substitute fragment).exec r = (.error err, r.mark earlier) := by
  rw [substitute_eq]
  exact Run.exec_bind_error (exec_mapM_rewriteSegment_of_missing hnames hearlier hmissing)

theorem eval_substitute_of_missing {r : Resolver} {fragment : String} {err : CompileError}
    (h : (visibleNames fragment).findSome? r.missing? = some err) :
    (substitute fragment).eval r = .error err := by
  obtain ⟨earlier, name, later, hnames, hmissing, hearlier⟩ := List.findSome?_eq_some_iff.1 h
  rw [Run.eval, exec_substitute_of_missing hnames hearlier hmissing]

/-- The check at the end passes if every placeholder has been replaced. -/
theorem finish_of_replaced {r : Resolver} (h : ∀ name ∈ r.placeholders.names, name ∈ r.replaced) :
    r.finish = .ok () := by
  have hnone : r.placeholders.entries.find? (fun e => !r.replaced.contains e.1) = none := by
    rw [List.find?_eq_none]
    intro e he
    simpa using h e.1 (List.mem_map.2 ⟨e, he, rfl⟩)
  rw [finish, hnone]

/-- It passes in no other case. -/
theorem replaced_of_finish {r : Resolver} (h : r.finish = .ok ()) :
    ∀ name ∈ r.placeholders.names, name ∈ r.replaced := by
  unfold finish at h
  split at h
  · rename_i hnone
    intro name hname
    obtain ⟨e, he, rfl⟩ := List.mem_map.1 hname
    simpa using List.find?_eq_none.1 hnone e he
  · split at h <;> cases h

/-- Otherwise there is a first placeholder, in order of names, that was not replaced. -/
theorem exists_first_unreplaced {r : Resolver}
    (h : ¬ ∀ name ∈ r.placeholders.names, name ∈ r.replaced) :
    ∃ name v, r.placeholders.get? name = some v ∧ name ∉ r.replaced ∧
      ∀ other ∈ r.placeholders.names, other < name → other ∈ r.replaced := by
  cases hfind : r.placeholders.entries.find? fun e => !r.replaced.contains e.1 with
  | none =>
    have hfinish : r.finish = .ok () := by rw [finish, hfind]
    exact absurd (replaced_of_finish hfinish) h
  | some e =>
    obtain ⟨hv, hunreplaced, hfirst⟩ :=
      (@NameTable.find?_entries_eq_some_iff _ r.placeholders (!r.replaced.contains ·) _ _).1 hfind
    exact ⟨e.1, e.2, hv, by simpa using hunreplaced, by simpa using hfirst⟩

/-- It is the one that is reported, with the reason. -/
theorem finish_of_first_unreplaced {r : Resolver} {name : String} {v : Variable}
    (hv : r.placeholders.get? name = some v) (hname : name ∉ r.replaced)
    (hfirst : ∀ other ∈ r.placeholders.names, other < name → other ∈ r.replaced) :
    r.finish = .error (if r.bindings.contains v.key then .internal (.unreachedPlaceholder name)
      else .missingBinding name v.key) := by
  have hfind : r.placeholders.entries.find? (fun e => !r.replaced.contains e.1) = some (name, v) :=
    (@NameTable.find?_entries_eq_some_iff _ r.placeholders (!r.replaced.contains ·) _ _).2
      ⟨hv, by simpa using hname, by simpa using hfirst⟩
  rw [finish, hfind]
  simp only
  split <;> rfl

/-- A placeholder is reported that was not replaced, though every placeholder has a value. -/
theorem finish_of_hidden {r : Resolver}
    (hsupplied : ∀ name v, r.placeholders.get? name = some v → r.bindings.contains v.key)
    (h : ¬ ∀ name ∈ r.placeholders.names, name ∈ r.replaced) :
    ∃ name v, r.placeholders.get? name = some v ∧ name ∉ r.replaced ∧
      r.finish = .error (.internal (.unreachedPlaceholder name)) := by
  obtain ⟨name, v, hv, hname, hfirst⟩ := exists_first_unreplaced h
  refine ⟨name, v, hv, hname, ?_⟩
  rw [finish_of_first_unreplaced hv hname hfirst, if_pos (hsupplied name v hv)]

/-! ## §3 Several fragments -/

theorem mem_replaced_mark {p : Placeholders} {b : Bindings} {names : List String} {name : String} :
    name ∈ ((fresh p b).mark names).replaced ↔ name ∈ names ∧ name ∈ p.names := by
  simp [mark, NameTable.mem_names_iff]

/-- Fragments whose visible placeholders all have a value are rewritten one after the other. -/
theorem exec_mapM_substitute {fragments : List String} {r : Resolver}
    (h : ∀ name ∈ fragments.flatMap visibleNames, r.missing? name = none) :
    (fragments.mapM substitute).exec r =
      (.ok (fragments.map (replaceNames r.valueText?)),
        r.mark (fragments.flatMap visibleNames)) := by
  induction fragments generalizing r with
  | nil => rfl
  | cons first rest ih =>
    rw [List.flatMap_cons] at h ⊢
    obtain ⟨hfirst, hrest⟩ := List.forall_mem_append.1 h
    have hnext : ∀ name ∈ rest.flatMap visibleNames,
        (r.mark (visibleNames first)).missing? name = none := hrest
    rw [List.mapM_cons, Run.exec_bind_ok (exec_substitute_of_supplied hfirst),
      Run.exec_bind_ok (ih hnext), mark_append]
    rfl

/-- The first placeholder without a value, in all fragments, decides. -/
theorem eval_mapM_substitute_of_missing {before after earlier later : List String}
    {fragment name : String} {r : Resolver} {err : CompileError}
    (hbefore : ∀ other ∈ before.flatMap visibleNames, r.missing? other = none)
    (hnames : visibleNames fragment = earlier ++ name :: later)
    (hearlier : ∀ other ∈ earlier, r.missing? other = none) (hmissing : r.missing? name = some err) :
    ((before ++ fragment :: after).mapM substitute).eval r = .error err := by
  have hfails : (substitute fragment).exec (r.mark (before.flatMap visibleNames)) =
      (.error err, (r.mark (before.flatMap visibleNames)).mark earlier) :=
    exec_substitute_of_missing hnames hearlier hmissing
  rw [List.mapM_append, List.mapM_cons, Run.eval, Run.exec_bind_ok (exec_mapM_substitute hbefore),
    Run.exec_bind_error (Run.exec_bind_error hfails)]

/-- If fragments show a placeholder without a value, there is a first one. -/
theorem exists_first_missing {fragments : List String} {r : Resolver}
    (h : ¬ ∀ name ∈ fragments.flatMap visibleNames, r.missing? name = none) :
    ∃ before fragment after earlier name later err, fragments = before ++ fragment :: after ∧
      (∀ other ∈ before.flatMap visibleNames, r.missing? other = none) ∧
      visibleNames fragment = earlier ++ name :: later ∧
      (∀ other ∈ earlier, r.missing? other = none) ∧ r.missing? name = some err := by
  cases hfind : (fragments.flatMap visibleNames).find? fun name => (r.missing? name).isSome with
  | none =>
    refine absurd (fun name hname => ?_) h
    simpa using List.find?_eq_none.1 hfind name hname
  | some name =>
    -- the first fragment with such a name, then the first such name in it
    rw [List.find?_flatMap, List.findSome?_eq_some_iff] at hfind
    obtain ⟨before, fragment, after, hfragments, hfragment, hbefore⟩ := hfind
    obtain ⟨hname, earlier, later, hnames, hearlier⟩ := List.find?_eq_some_iff_append.1 hfragment
    obtain ⟨err, herr⟩ := Option.isSome_iff_exists.1 hname
    refine ⟨before, fragment, after, earlier, name, later, err, hfragments, ?_, hnames, ?_, herr⟩
    · intro other hother
      obtain ⟨f, hf, hother⟩ := List.mem_flatMap.1 hother
      simpa using List.find?_eq_none.1 (hbefore f hf) other hother
    · intro other hother
      simpa using hearlier other hother

end Resolver

namespace Placeholders

/-! ## §4 The whole resolution -/

variable {p : Placeholders} {b : Bindings} {fragment : String}

/-- If no visible placeholder misses its value, the check at the end decides. -/
theorem resolve_eq_finish
    (hsupplied : ∀ name ∈ visibleNames fragment, (Resolver.fresh p b).missing? name = none) :
    p.resolve b fragment = ((Resolver.fresh p b).mark (visibleNames fragment)).finish.map fun _ =>
      replaceNames (Resolver.fresh p b).valueText? fragment := by
  unfold resolve Run.eval
  rw [Run.exec_bind_ok (Resolver.exec_substitute_of_supplied hsupplied),
    Run.exec_bind_ok (Run.exec_get _), Run.exec_bind, Run.exec_lift]
  cases ((Resolver.fresh p b).mark (visibleNames fragment)).finish <;> rfl

/-- **Resolving succeeds** if every visible placeholder has a value and every placeholder is
    visible. -/
theorem resolve_of_supplied
    (hvisible : ∀ name ∈ p.names, name ∈ visibleNames fragment)
    (hsupplied : ∀ name ∈ visibleNames fragment, (Resolver.fresh p b).missing? name = none) :
    p.resolve b fragment = .ok (replaceNames (Resolver.fresh p b).valueText? fragment) := by
  have hreplaced : ∀ name ∈ p.names,
      name ∈ ((Resolver.fresh p b).mark (visibleNames fragment)).replaced := fun name hname =>
    Resolver.mem_replaced_mark.2 ⟨hvisible name hname, hname⟩
  rw [resolve_eq_finish hsupplied, Resolver.finish_of_replaced hreplaced]
  rfl

/-- **Resolving fails** at the first visible placeholder without a value. -/
theorem resolve_of_missing {err : CompileError}
    (h : (visibleNames fragment).findSome? (Resolver.fresh p b).missing? = some err) :
    p.resolve b fragment = .error err :=
  Run.eval_bind_error (Resolver.eval_substitute_of_missing h)

/-- Every placeholder of a table has a value. -/
def Supplied (p : Placeholders) (b : Bindings) : Prop :=
  ∀ name v, p.get? name = some v → b.contains v.key

theorem Supplied.missing?_eq_none (h : p.Supplied b) (name : String) :
    (Resolver.fresh p b).missing? name = none := by
  unfold Resolver.missing?
  cases hv : p.get? name with
  | none => rfl
  | some v => simp [h name v hv]

/-- Then the names that are replaced are those of the table. -/
theorem Supplied.valueText?_eq_none_iff (h : p.Supplied b) {name : String} :
    (Resolver.fresh p b).valueText? name = none ↔ name ∉ p.names := by
  rw [← p.get?_eq_none_iff, Resolver.valueText?]
  cases hv : p.get? name with
  | none => simp
  | some v =>
    obtain ⟨value, hvalue⟩ := Option.isSome_iff_exists.1 (h name v hv)
    simp [hvalue]

/-- **Resolving fails** at a placeholder that is hidden, though every placeholder has a value. -/
theorem resolve_of_hidden (hsupplied : p.Supplied b)
    (hhidden : ¬ ∀ name ∈ p.names, name ∈ visibleNames fragment) :
    ∃ name v, p.get? name = some v ∧ name ∉ visibleNames fragment ∧
      p.resolve b fragment = .error (.internal (.unreachedPlaceholder name)) := by
  have hreplaced : ¬ ∀ name ∈ p.names,
      name ∈ ((Resolver.fresh p b).mark (visibleNames fragment)).replaced := fun h =>
    hhidden fun name hname => (Resolver.mem_replaced_mark.1 (h name hname)).1
  obtain ⟨name, v, hv, hname, hfinish⟩ :=
    @Resolver.finish_of_hidden ((Resolver.fresh p b).mark _) hsupplied hreplaced
  refine ⟨name, v, hv, ?_, ?_⟩
  · intro hvisible
    exact hname (Resolver.mem_replaced_mark.2 ⟨hvisible, p.mem_names_of_get? hv⟩)
  · rw [resolve_eq_finish fun name _ => hsupplied.missing?_eq_none name, hfinish]
    rfl

/-- What is visible and not missed has a value. -/
theorem supplied_of_visible {names : List String} (hvisible : ∀ name ∈ p.names, name ∈ names)
    (h : ∀ name ∈ names, (Resolver.fresh p b).missing? name = none) : p.Supplied b := by
  intro name v hv
  have hmissing := h name (hvisible name (p.mem_names_of_get? hv))
  rw [Resolver.missing?, hv] at hmissing
  simpa using hmissing

variable {fragments texts : List String}

/-- **Resolving several fragments fails** at the first visible placeholder without a value. -/
theorem resolveAll_of_missing {before after earlier later : List String} {name : String}
    {err : CompileError}
    (hbefore : ∀ other ∈ before.flatMap visibleNames, (Resolver.fresh p b).missing? other = none)
    (hnames : visibleNames fragment = earlier ++ name :: later)
    (hearlier : ∀ other ∈ earlier, (Resolver.fresh p b).missing? other = none)
    (hmissing : (Resolver.fresh p b).missing? name = some err) :
    p.resolveAll b (before ++ fragment :: after) = .error err :=
  Run.eval_bind_error
    (Resolver.eval_mapM_substitute_of_missing hbefore hnames hearlier hmissing)

/-- If no fragment shows a placeholder without a value, the check at the end decides. -/
theorem resolveAll_eq_finish
    (h : ∀ name ∈ fragments.flatMap visibleNames, (Resolver.fresh p b).missing? name = none) :
    p.resolveAll b fragments =
      ((Resolver.fresh p b).mark (fragments.flatMap visibleNames)).finish >>= fun _ =>
        .ok (fragments.map (replaceNames (Resolver.fresh p b).valueText?)) := by
  unfold resolveAll Resolver.resolveAll Run.eval
  rw [Run.exec_bind_ok (Resolver.exec_mapM_substitute h),
    Run.exec_bind_ok (Run.exec_get _), Run.exec_bind, Run.exec_lift]
  cases ((Resolver.fresh p b).mark (fragments.flatMap visibleNames)).finish <;> rfl

/-- **Resolving several fragments succeeds exactly** if every placeholder is visible in one of them
    and has a value. -/
theorem resolveAll_eq_ok_iff :
    p.resolveAll b fragments = .ok texts ↔
      (∀ name ∈ p.names, name ∈ fragments.flatMap visibleNames) ∧ p.Supplied b ∧
        texts = fragments.map (replaceNames (Resolver.fresh p b).valueText?) := by
  by_cases hnone :
      ∀ name ∈ fragments.flatMap visibleNames, (Resolver.fresh p b).missing? name = none
  · rw [resolveAll_eq_finish hnone, Run.bind_eq_ok_iff]
    constructor
    · rintro ⟨_, hfinish, htexts⟩
      cases htexts
      have hvisible : ∀ name ∈ p.names, name ∈ fragments.flatMap visibleNames := fun name hname =>
        (Resolver.mem_replaced_mark.1 (Resolver.replaced_of_finish hfinish name hname)).1
      exact ⟨hvisible, supplied_of_visible hvisible hnone, rfl⟩
    · rintro ⟨hvisible, _, rfl⟩
      refine ⟨(), Resolver.finish_of_replaced fun name hname => ?_, rfl⟩
      exact Resolver.mem_replaced_mark.2 ⟨hvisible name hname, hname⟩
  · constructor
    · obtain ⟨_, _, _, _, _, _, _, rfl, hbefore, hnames, hearlier, hmissing⟩ :=
        Resolver.exists_first_missing hnone
      rw [resolveAll_of_missing hbefore hnames hearlier hmissing]
      intro hok
      cases hok
    · rintro ⟨_, hsupplied, _⟩
      -- with a value for every placeholder nothing is missed
      exact absurd (fun name _ => hsupplied.missing?_eq_none name) hnone

/-- Resolving one fragment is resolving a list of one. -/
theorem resolveAll_singleton :
    p.resolveAll b [fragment] = (p.resolve b fragment).map fun text => [text] := by
  have hlist : [fragment].mapM Resolver.substitute =
      Resolver.substitute fragment >>= fun text => pure [text] := by
    simp
  unfold resolveAll resolve Resolver.resolveAll Run.eval
  rw [hlist, bind_assoc, Run.exec_bind, Run.exec_bind]
  rcases (Resolver.substitute fragment).exec (Resolver.fresh p b) with ⟨outcome, r⟩
  cases outcome with
  | error err => rfl
  | ok text =>
    simp only [pure_bind]
    rw [Run.exec_bind_ok (Run.exec_get r), Run.exec_bind_ok (Run.exec_get r), Run.exec_bind,
      Run.exec_bind, Run.exec_lift]
    cases r.finish <;> rfl

/-- **Resolving one fragment succeeds exactly** if every placeholder is visible and has a value. -/
theorem resolve_eq_ok_iff {text : String} :
    p.resolve b fragment = .ok text ↔
      (∀ name ∈ p.names, name ∈ visibleNames fragment) ∧ p.Supplied b ∧
        text = replaceNames (Resolver.fresh p b).valueText? fragment := by
  have hlist : p.resolve b fragment = .ok text ↔ p.resolveAll b [fragment] = .ok [text] := by
    rw [resolveAll_singleton]
    cases p.resolve b fragment <;> simp [Except.map]
  rw [hlist, resolveAll_eq_ok_iff]
  simp

end Placeholders

end QueryPipeline
