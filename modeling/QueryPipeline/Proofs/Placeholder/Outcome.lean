import Mathlib.Data.List.Forall2
import QueryPipeline.Filter
import QueryPipeline.Proofs.Fragment.Resolution
import QueryPipeline.Proofs.Fragment.Visibility

/-!
# How a resolution ends

Fragments that share their placeholders are resolved in order.  How that ends is told here by what
the fragments show, without the scanner and without the record of what was replaced: a shown
placeholder without a value comes first, in the order of the texts; then a placeholder that is shown
nowhere, in the order of names; and otherwise every shown placeholder gives way to its value.

The second order gets in the way of the first reason.  A hidden placeholder that has a value is
reported as such even where another hidden one has none.

## Main definitions

- `Placeholders.Lacks`: a placeholder has no supplied value.
- `ShownIn`: some fragment shows a name.
- `Placeholders.FirstHidden`: the placeholder that is shown nowhere and comes first.
- `Placeholders.Ends`: how resolving several fragments ends.
- `Placeholders.Masks`: a hidden placeholder stands in for a missing value.

## Main statements

- `Placeholders.resolveAll_ends_iff`: resolving ends as `Ends` says, in one way only, and depends on
  no binding but those of the placeholders.
- `Placeholders.resolve_lacking_iff_unmasked`: when a missing value is reported as such.
-/

namespace QueryPipeline

/-- A name that some of the fragments show. -/
def ShownIn (fragments : List String) (name : String) : Prop :=
  ∃ fragment ∈ fragments, ∃ before after, Shows fragment before name after

theorem mem_flatMap_visibleNames_iff {fragments : List String} {name : String} :
    name ∈ fragments.flatMap visibleNames ↔ ShownIn fragments name := by
  simp only [List.mem_flatMap, mem_visibleNames_iff, ShownIn]

namespace Placeholders

/-! ## §1 The rules -/

/-- A name that is a placeholder without a supplied value. -/
def Lacks (p : Placeholders) (b : Bindings) (name : String) : Prop :=
  ∃ v, p.get? name = some v ∧ b.get? v.key = none

/-- Of the placeholders that no fragment shows, the first one in order of names. -/
structure FirstHidden (p : Placeholders) (fragments : List String) (name : String) : Prop where
  placeholder : name ∈ p.names
  hidden : ¬ ShownIn fragments name
  first : ∀ other ∈ p.names, other < name → ShownIn fragments other

/-- **How resolving several fragments ends.** -/
inductive Ends (p : Placeholders) (b : Bindings) (fragments : List String) :
    Except CompileError (List String) → Prop
  /-- A fragment shows a placeholder without a value, and none is shown in the fragments before it
      or in front of it. -/
  | missing {earlier later : List String} {fragment name : String} {before after : List Char}
      {v : Variable} (split : fragments = earlier ++ fragment :: later)
      (shown : Shows fragment before name after) (placeholder : p.get? name = some v)
      (lacking : b.get? v.key = none)
      (firstFragment : ∀ other, ShownIn earlier other → ¬ p.Lacks b other)
      (firstPlace : ∀ before' other after', Shows fragment before' other after' →
        before'.length < before.length → ¬ p.Lacks b other) :
      Ends p b fragments (.error (.missingBinding name v.key))
  /-- The first hidden placeholder has no value either. -/
  | hiddenLacking {name : String} {v : Variable}
      (supplied : ∀ other, ShownIn fragments other → ¬ p.Lacks b other)
      (hidden : p.FirstHidden fragments name) (placeholder : p.get? name = some v)
      (lacking : b.get? v.key = none) :
      Ends p b fragments (.error (.missingBinding name v.key))
  /-- The first hidden placeholder has a value that was written nowhere. -/
  | hidden {name : String} {v : Variable} {value : Value}
      (supplied : ∀ other, ShownIn fragments other → ¬ p.Lacks b other)
      (hidden : p.FirstHidden fragments name) (placeholder : p.get? name = some v)
      (bound : b.get? v.key = some value) :
      Ends p b fragments (.error (.internal (.unreachedPlaceholder name)))
  /-- Every placeholder is shown and has a value. -/
  | resolved {texts : List String}
      (supplied : ∀ other, ShownIn fragments other → ¬ p.Lacks b other)
      (shown : ∀ name ∈ p.names, ShownIn fragments name)
      (rewritten : List.Forall₂ (Rewrites (Resolver.fresh p b).valueText?) fragments texts) :
      Ends p b fragments (.ok texts)

/-! ## §2 The rules and the resolver -/

variable {p : Placeholders} {b : Bindings} {fragments : List String}

theorem missing?_eq_none_iff {name : String} :
    (Resolver.fresh p b).missing? name = none ↔ ¬ p.Lacks b name := by
  unfold Resolver.missing? Lacks
  cases hv : p.get? name with
  | none => simp
  | some v => cases hvalue : b.get? v.key <;> simp [NameTable.contains, hvalue]

theorem missing?_of_lacking {name : String} {v : Variable} (hv : p.get? name = some v)
    (hlacking : b.get? v.key = none) :
    (Resolver.fresh p b).missing? name = some (.missingBinding name v.key) := by
  simp [Resolver.missing?, NameTable.contains, hv, hlacking]

theorem exists_lacking_of_missing? {name : String} {err : CompileError}
    (h : (Resolver.fresh p b).missing? name = some err) :
    ∃ v, p.get? name = some v ∧ b.get? v.key = none ∧ err = .missingBinding name v.key := by
  obtain ⟨v, hv, hlacking⟩ : p.Lacks b name := by
    by_contra hsupplied
    rw [missing?_eq_none_iff.2 hsupplied] at h
    cases h
  rw [missing?_of_lacking hv hlacking] at h
  cases h
  exact ⟨v, hv, hlacking, rfl⟩

theorem missing?_eq_none_of_shown (h : ∀ other, ShownIn fragments other → ¬ p.Lacks b other) :
    ∀ name ∈ fragments.flatMap visibleNames, (Resolver.fresh p b).missing? name = none := by
  intro name hname
  exact missing?_eq_none_iff.2 (h name (mem_flatMap_visibleNames_iff.1 hname))

/-- What the check at the end finds, if nothing shown lacks a value. -/
theorem finish_of_firstHidden {name : String} {v : Variable} (h : p.FirstHidden fragments name)
    (hv : p.get? name = some v) :
    ((Resolver.fresh p b).mark (fragments.flatMap visibleNames)).finish =
      .error (if b.contains v.key then .internal (.unreachedPlaceholder name)
        else .missingBinding name v.key) := by
  refine Resolver.finish_of_first_unreplaced hv ?_ ?_
  · rw [Resolver.mem_replaced_mark, mem_flatMap_visibleNames_iff]
    exact fun hreplaced => h.hidden hreplaced.1
  · intro other hother hlt
    rw [Resolver.mem_replaced_mark, mem_flatMap_visibleNames_iff]
    exact ⟨h.first other hother hlt, hother⟩

/-- If not every placeholder is shown, there is a first hidden one. -/
theorem exists_firstHidden (h : ¬ ∀ name ∈ p.names, ShownIn fragments name) :
    ∃ name v, p.FirstHidden fragments name ∧ p.get? name = some v := by
  have hreplaced : ∀ name, name ∈ ((Resolver.fresh p .empty).mark
      (fragments.flatMap visibleNames)).replaced ↔ ShownIn fragments name ∧ name ∈ p.names := by
    intro name
    rw [Resolver.mem_replaced_mark, mem_flatMap_visibleNames_iff]
  have hunreplaced : ¬ ∀ name ∈ p.names, name ∈ ((Resolver.fresh p .empty).mark
      (fragments.flatMap visibleNames)).replaced := fun hall =>
    h fun name hname => ((hreplaced name).1 (hall name hname)).1
  obtain ⟨name, v, hv, hname, hfirst⟩ :=
    @Resolver.exists_first_unreplaced ((Resolver.fresh p .empty).mark _) hunreplaced
  have hmem : name ∈ p.names := p.mem_names_of_get? hv
  refine ⟨name, v, ⟨hmem, fun hshown => hname ((hreplaced name).2 ⟨hshown, hmem⟩), ?_⟩, hv⟩
  exact fun other hother hlt => ((hreplaced other).1 (hfirst other hother hlt)).1

theorem forall₂_rewrites_iff {replace : String → Option String} {texts : List String} :
    List.Forall₂ (Rewrites replace) fragments texts ↔
      texts = fragments.map (replaceNames replace) := by
  constructor
  · intro h
    induction h with
    | nil => rfl
    | cons hfirst _ ih => rw [List.map_cons, ← ih, rewrites_iff.1 hfirst]
  · rintro rfl
    exact List.forall₂_map_right_iff.2 (List.forall₂_same.2 fun _ _ => rewrites_iff.2 rfl)

/-- Resolving ends by one of the rules. -/
theorem ends_resolveAll (p : Placeholders) (b : Bindings) (fragments : List String) :
    p.Ends b fragments (p.resolveAll b fragments) := by
  by_cases hnone :
      ∀ name ∈ fragments.flatMap visibleNames, (Resolver.fresh p b).missing? name = none
  · have hsupplied : ∀ other, ShownIn fragments other → ¬ p.Lacks b other := fun other hother =>
      missing?_eq_none_iff.1 (hnone other (mem_flatMap_visibleNames_iff.2 hother))
    rw [resolveAll_eq_finish hnone]
    by_cases hshown : ∀ name ∈ p.names, ShownIn fragments name
    · rw [Resolver.finish_of_replaced fun name hname => Resolver.mem_replaced_mark.2
        ⟨mem_flatMap_visibleNames_iff.2 (hshown name hname), hname⟩]
      exact .resolved hsupplied hshown (forall₂_rewrites_iff.2 rfl)
    · obtain ⟨name, v, hhidden, hv⟩ := exists_firstHidden hshown
      rw [finish_of_firstHidden hhidden hv]
      cases hvalue : b.get? v.key with
      | none =>
        rw [NameTable.contains, hvalue]
        exact .hiddenLacking hsupplied hhidden hv hvalue
      | some value =>
        rw [NameTable.contains, hvalue]
        exact .hidden hsupplied hhidden hv hvalue
  · -- the first name without a value, by fragment and by place
    obtain ⟨before, fragment, after, earlier, name, later, err, rfl, hbefore, hnames, hearlier,
      hmissing⟩ := Resolver.exists_first_missing hnone
    obtain ⟨v, hv, hlacking, rfl⟩ := exists_lacking_of_missing? hmissing
    obtain ⟨textBefore, textAfter, hshown, hplace⟩ := exists_shows_of_visibleNames hnames
    rw [resolveAll_of_missing hbefore hnames hearlier hmissing]
    refine .missing rfl hshown hv hlacking ?_ ?_
    · intro other hother
      exact missing?_eq_none_iff.1 (hbefore other (mem_flatMap_visibleNames_iff.2 hother))
    · intro before' other after' hother hlt
      exact missing?_eq_none_iff.1 (hearlier other (hplace before' other after' hother hlt))

/-- Whatever a rule says is what resolving does. -/
theorem Ends.resolveAll_eq {outcome : Except CompileError (List String)}
    (h : p.Ends b fragments outcome) : p.resolveAll b fragments = outcome := by
  cases h with
  | missing split shown placeholder lacking firstFragment firstPlace =>
    obtain ⟨earlier, later, hnames, hearlier⟩ := exists_visibleNames_of_shows shown
    rw [split]
    refine resolveAll_of_missing (missing?_eq_none_of_shown firstFragment) hnames ?_
      (missing?_of_lacking placeholder lacking)
    intro other hother
    obtain ⟨before', after', hshown, hlt⟩ := hearlier other hother
    exact missing?_eq_none_iff.2 (firstPlace before' other after' hshown hlt)
  | hiddenLacking supplied hidden placeholder lacking =>
    rw [resolveAll_eq_finish (missing?_eq_none_of_shown supplied),
      finish_of_firstHidden hidden placeholder, NameTable.contains, lacking]
    rfl
  | hidden supplied hidden placeholder bound =>
    rw [resolveAll_eq_finish (missing?_eq_none_of_shown supplied),
      finish_of_firstHidden hidden placeholder, NameTable.contains, bound]
    rfl
  | resolved supplied shown rewritten =>
    rw [resolveAll_eq_finish (missing?_eq_none_of_shown supplied),
      Resolver.finish_of_replaced fun name hname => Resolver.mem_replaced_mark.2
        ⟨mem_flatMap_visibleNames_iff.2 (shown name hname), hname⟩,
      forall₂_rewrites_iff.1 rewritten]
    rfl

/-! ## §3 Which bindings matter -/

/-- Two bindings that agree on the keys of the placeholders. -/
def Agree (p : Placeholders) (b b' : Bindings) : Prop :=
  ∀ name v, p.get? name = some v → b'.get? v.key = b.get? v.key

theorem Agree.lacks_iff {b' : Bindings} (h : p.Agree b b') {name : String} :
    p.Lacks b' name ↔ p.Lacks b name := by
  constructor
  · rintro ⟨v, hv, hlacking⟩
    exact ⟨v, hv, (h name v hv).symm.trans hlacking⟩
  · rintro ⟨v, hv, hlacking⟩
    exact ⟨v, hv, (h name v hv).trans hlacking⟩

theorem Agree.valueText?_eq {b' : Bindings} (h : p.Agree b b') :
    (Resolver.fresh p b').valueText? = (Resolver.fresh p b).valueText? := by
  funext name
  unfold Resolver.valueText?
  cases hv : p.get? name with
  | none => rfl
  | some v => simp [h name v hv]

theorem Agree.ends {b' : Bindings} (h : p.Agree b b') {outcome : Except CompileError (List String)}
    (hends : p.Ends b fragments outcome) : p.Ends b' fragments outcome := by
  -- the rules look at bindings through the placeholders only
  have hshown : ∀ {texts : List String}, (∀ other, ShownIn texts other → ¬ p.Lacks b other) →
      ∀ other, ShownIn texts other → ¬ p.Lacks b' other := fun hsupplied other hother hlacks =>
    hsupplied other hother (h.lacks_iff.1 hlacks)
  cases hends with
  | missing split shown placeholder lacking firstFragment firstPlace =>
    refine .missing split shown placeholder ((h _ _ placeholder).trans lacking)
      (hshown firstFragment) ?_
    intro before' other after' hother hlt hlacks
    exact firstPlace before' other after' hother hlt (h.lacks_iff.1 hlacks)
  | hiddenLacking supplied hidden placeholder lacking =>
    exact .hiddenLacking (hshown supplied) hidden placeholder
      ((h _ _ placeholder).trans lacking)
  | hidden supplied hidden placeholder bound =>
    exact .hidden (hshown supplied) hidden placeholder ((h _ _ placeholder).trans bound)
  | resolved supplied shown rewritten =>
    refine .resolved (hshown supplied) shown ?_
    rwa [h.valueText?_eq]

/-- **How a resolution of several fragments ends** is told by the rules, which leave no choice; so
    bindings that agree on the keys of the placeholders give the same. -/
theorem resolveAll_ends_iff (p : Placeholders) (b : Bindings) (fragments : List String) :
    (∀ outcome, p.resolveAll b fragments = outcome ↔ p.Ends b fragments outcome) ∧
      ∀ b', p.Agree b b' → p.resolveAll b' fragments = p.resolveAll b fragments := by
  refine ⟨fun outcome => ⟨?_, Ends.resolveAll_eq⟩, fun b' hagree => ?_⟩
  · rintro rfl
    exact ends_resolveAll p b fragments
  · exact (hagree.ends (ends_resolveAll p b fragments)).resolveAll_eq

/-! ## §4 Missing values that are not reported -/

/-- **A hidden placeholder stands in for a missing value**: nothing that the fragment shows lacks a
    value, and the first placeholder that it hides has one. -/
structure Masks (p : Placeholders) (b : Bindings) (fragment name : String) : Prop where
  supplied : ∀ other, ShownIn [fragment] other → ¬ p.Lacks b other
  hidden : p.FirstHidden [fragment] name
  bound : ¬ p.Lacks b name

variable {fragment : String}

theorem resolve_eq_error_iff {err : CompileError} :
    p.resolve b fragment = .error err ↔ p.Ends b [fragment] (.error err) := by
  have hends : p.resolveAll b [fragment] = .error err ↔ p.Ends b [fragment] (.error err) :=
    ⟨fun h => h ▸ ends_resolveAll p b [fragment], Ends.resolveAll_eq⟩
  rw [← hends, resolveAll_singleton]
  cases p.resolve b fragment <;> simp [Except.map]

theorem Masks.resolve_eq {name : String} (h : p.Masks b fragment name) :
    p.resolve b fragment = .error (.internal (.unreachedPlaceholder name)) := by
  obtain ⟨v, hv⟩ := p.exists_get?_of_mem_names h.hidden.placeholder
  cases hvalue : b.get? v.key with
  | none => exact absurd ⟨v, hv, hvalue⟩ h.bound
  | some value => exact resolve_eq_error_iff.2 (.hidden h.supplied h.hidden hv hvalue)

/-- **When a missing value is reported as such.** If some placeholder lacks its value, resolving one
    fragment names such a placeholder, unless another one stands in for it: that one is reported as
    hidden instead. -/
theorem resolve_lacking_iff_unmasked (h : ∃ name, p.Lacks b name) :
    ((∃ name v, p.get? name = some v ∧ b.get? v.key = none ∧
        p.resolve b fragment = .error (.missingBinding name v.key)) ↔
      ∀ name, ¬ p.Masks b fragment name) ∧
    ∀ name, p.Masks b fragment name →
      p.resolve b fragment = .error (.internal (.unreachedPlaceholder name)) := by
  refine ⟨⟨?_, fun hunmasked => ?_⟩, fun name hmasks => hmasks.resolve_eq⟩
  · rintro ⟨name, v, _, _, hresolve⟩ other hmasks
    cases hresolve.symm.trans hmasks.resolve_eq
  · generalize hall : p.resolveAll b [fragment] = outcome
    have hends := hall ▸ ends_resolveAll p b [fragment]
    have hresolve : ∀ {err}, p.Ends b [fragment] (.error err) → p.resolve b fragment = .error err :=
      resolve_eq_error_iff.2
    cases hends with
    | missing split shown placeholder lacking firstFragment firstPlace =>
      exact ⟨_, _, placeholder, lacking,
        hresolve (.missing split shown placeholder lacking firstFragment firstPlace)⟩
    | hiddenLacking supplied hidden placeholder lacking =>
      exact ⟨_, _, placeholder, lacking,
        hresolve (.hiddenLacking supplied hidden placeholder lacking)⟩
    | hidden supplied hidden placeholder bound =>
      refine absurd ⟨supplied, hidden, ?_⟩ (hunmasked _)
      rintro ⟨v, hv, hlacking⟩
      cases hv.symm.trans placeholder
      cases hlacking.symm.trans bound
    | resolved supplied shown =>
      obtain ⟨name, v, hv, hlacking⟩ := h
      exact absurd ⟨v, hv, hlacking⟩ (supplied name (shown name (p.mem_names_of_get? hv)))

/-- A value for the lower of two bounds, and none for the upper one. -/
def lowerBound : Bindings :=
  NameTable.empty.insert "low" (.int 10)

/-- Two placeholders behind a quote that is never closed.  The first one in order of names has a
    value and is reported, the second one has none and is not. -/
theorem resolve_lacking_upperBound :
    ∃ p : Placeholders, p.Lacks lowerBound "var2" ∧
      p.resolve lowerBound "[a, 'var1, var2]" =
        .error (.internal (.unreachedPlaceholder "var1")) := by
  let p : Placeholders := NameTable.ofList
    [("var1", { field := "low", type := .int }), ("var2", { field := "high", type := .int })]
  have hlacks : p.Lacks lowerBound "var2" := ⟨{ field := "high", type := .int }, by decide⟩
  have hnames : p.names = ["var1", "var2"] := by decide
  have hshown : ∀ name, ShownIn ["[a, 'var1, var2]"] name ↔ name = "a" := by
    have hvisible : ["[a, 'var1, var2]"].flatMap visibleNames = ["a"] := by decide
    intro name
    rw [← mem_flatMap_visibleNames_iff, hvisible, List.mem_singleton]
  have hmasks : p.Masks lowerBound "[a, 'var1, var2]" "var1" := by
    refine ⟨fun other hother => ?_, ⟨by decide, ?_, ?_⟩, ?_⟩
    · rw [(hshown other).1 hother]
      rintro ⟨v, hv, _⟩
      cases hv
    · rw [hshown]
      decide
    · simp only [hnames, hshown]
      decide
    · rintro ⟨v, hv, hlacking⟩
      cases hv
      cases hlacking
  exact ⟨p, hlacks, (resolve_lacking_iff_unmasked ⟨"var2", hlacks⟩).2 "var1" hmasks⟩

/-- A price between two bounds, behind a constant with a quote. -/
def quotedBounds : Expr :=
  .and
    (.compare .eq (.column { field := "name", type := .string })
      (.constant (.text "O'Neil") .string))
    (.and
      (.compare .gt (.column { field := "price", type := .int })
        (.variable { field := "low", type := .int }))
      (.compare .lt (.column { field := "price", type := .int })
        (.variable { field := "high", type := .int })))

/-- A filter whose upper bound has no value, which resolving does not say: the quote hides both
    bounds, and the lower one is reported as hidden. -/
theorem missing_upperBound_unreported :
    ∃ compiled, compileFilter {} {} quotedBounds = .ok compiled ∧
      compiled.placeholders.Lacks lowerBound "var2" ∧
      ¬ ∃ name key, compiled.resolve lowerBound = .error (.missingBinding name key) := by
  have hresolved : (compileFilter {} {} quotedBounds).map
      (fun c => (c.placeholders.get? "var2", c.resolve lowerBound)) =
      .ok (some { field := "high", type := .int },
        .error (.internal (.unreachedPlaceholder "var1"))) := by decide +kernel
  obtain ⟨compiled, hcompiled, hboth⟩ := Run.map_eq_ok_iff.1 hresolved
  obtain ⟨hplaceholder, hresolve⟩ := Prod.mk.inj hboth
  refine ⟨compiled, hcompiled, ⟨_, hplaceholder, by decide⟩, ?_⟩
  rintro ⟨name, key, hmissing⟩
  cases hresolve.symm.trans hmissing

end Placeholders

end QueryPipeline
