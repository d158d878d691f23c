import QueryPipeline.Proofs.Fragment.Visibility

/-!
# Names replaced in two phases

Constants are written into a fragment when a clause is finished, and values when it is resolved.  The
second phase scans the text that the first one has written, so it could see other names there than
the fragment had.  It does not if the texts of the first phase close their quotes and show none of the
names that are left for the second: then both phases together do what one would have done.

The reason is that a name is replaced as a whole run of word characters, so that its text stands
between characters that are in no word, and is cut into segments on its own.  The quotes of the
fragment itself need not be closed.

## Main definitions

- `Segment.spliced`: the segments that take the place of one whose name is replaced.

## Main statements

- `ofText_replaceNames`: how a text with replaced names is cut into segments.
- `substitute_in_two_phases`: replacing in two phases is replacing once.
-/

namespace QueryPipeline

open Segment

variable {replace first second : String → Option String}

/-! ## §1 Cutting a text with replaced names -/

namespace Segment

/-- The segments of what is written for a segment: those of the replacement, if its name has one. -/
def spliced (replace : String → Option String) (s : Segment) : List Segment :=
  match s.name?.bind replace with
  | some value => ofText value
  | none => [s]

/-- Replacing names brings no word character in front of a cut that starts with no run. -/
theorem IsCut.head_rewritten {l : List Segment} (h : IsCut false l)
    (hstart : ∀ v, l.head? ≠ some (Segment.run v)) :
    ∀ c ∈ (l.flatMap fun s => (s.rewrite replace).toList).head?, isWordChar c = false := by
  have hchars := h.head_of_no_run hstart
  rcases l with _ | ⟨c | w, rest⟩
  · exact hchars
  · rw [List.flatMap_cons, toList_rewrite_plain]
    exact hchars
  · exact absurd rfl (hstart w)

/-- **A text with replaced names is cut** where it was cut before, and inside the replacements. -/
theorem IsCut.scan_rewritten (hclosed : ∀ name value, replace name = some value → Balanced value)
    {quoted : Bool} {l : List Segment} (h : IsCut quoted l) :
    scan quoted (l.flatMap fun s => (s.rewrite replace).toList) = l.flatMap (spliced replace) := by
  induction h with
  | nil => rfl
  | quote next ih =>
    rw [List.flatMap_cons, List.flatMap_cons, ← ih, toList_rewrite_plain]
    rfl
  | @plain quoted c rest noQuote apart next ih =>
    have hplain : (quoted || !isWordChar c) = true := by
      cases hword : isWordChar c with
      | false => simp
      | true => simp [apart hword]
    rw [List.flatMap_cons, List.flatMap_cons, ← ih, toList_rewrite_plain, List.singleton_append,
      scan_cons, if_neg noQuote, if_pos hplain]
    rfl
  | @run w rest nonempty word ends next ih =>
    -- what follows the run starts with no word character, so the text of the run is cut on its own
    rw [List.flatMap_cons, List.flatMap_cons, scan_append (.inr (next.head_rewritten ends))]
    cases hreplace : (Segment.run w).name?.bind replace with
    | some value =>
      obtain ⟨name, _, hvalue⟩ := Option.bind_eq_some_iff.1 hreplace
      have hbalanced : quotedAfter false value.toList = false := hclosed name value hvalue
      rw [rewrite_of_some hreplace, hbalanced, ih, spliced, hreplace]
      rfl
    | none =>
      obtain ⟨c, cs, rfl⟩ := List.exists_cons_of_ne_nil nonempty
      rw [rewrite_of_none hreplace, text, String.toList_ofList, chars,
        quotedAfter_of_not_mem (quote_not_mem_of_word word), scan_word word, ih, spliced, hreplace]

end Segment

theorem ofText_replaceNames (hclosed : ∀ name value, replace name = some value → Balanced value)
    (text : String) :
    ofText (replaceNames replace text) = (ofText text).flatMap (spliced replace) := by
  rw [← (isCut_ofText text).scan_rewritten hclosed, ofText, replaceNames, String.toList_join,
    List.flatMap_map]

/-! ## §2 Two phases -/

/-- A text that a name is replaced by in the first phase is left alone in the second. -/
theorem Segment.join_rewrite_spliced
    (hapart : ∀ name value, first name = some value →
      ∀ other ∈ visibleNames value, second other = none) (s : Segment) :
    String.join ((s.spliced first).map (Segment.rewrite second)) =
      s.rewrite fun name => (first name).or (second name) := by
  unfold spliced
  cases hfirst : s.name?.bind first with
  | some value =>
    obtain ⟨name, hname, hvalue⟩ := Option.bind_eq_some_iff.1 hfirst
    have hboth : (s.name?.bind fun name => (first name).or (second name)) = some value := by
      rw [hname, Option.bind_some, hvalue, Option.some_or]
    rw [rewrite_of_some hboth]
    exact replaceNames_eq_self (hapart name value hvalue)
  | none =>
    -- the name is left for the second phase, which replaces it alone
    have hboth : (s.name?.bind fun name => (first name).or (second name)) = s.name?.bind second := by
      cases hname : s.name? with
      | none => rfl
      | some name =>
        rw [hname, Option.bind_some] at hfirst
        simp [hfirst]
    simp [rewrite_congr hboth]

theorem replaceNames_replaceNames (hclosed : ∀ name value, first name = some value → Balanced value)
    (hapart : ∀ name value, first name = some value →
      ∀ other ∈ visibleNames value, second other = none) (text : String) :
    replaceNames second (replaceNames first text) =
      replaceNames (fun name => (first name).or (second name)) text := by
  apply String.toList_injective
  rw [replaceNames, ofText_replaceNames hclosed, replaceNames, String.toList_join,
    String.toList_join, List.flatMap_map, List.flatMap_map, List.flatMap_assoc]
  congr 1
  funext s
  rw [← s.join_rewrite_spliced hapart, String.toList_join, List.flatMap_map]

/-- **Replacing names in two phases is replacing them once.**  Let every text of the first phase hold an
    even number of quotes, and show no name outside quotes that the second phase replaces.  Then the
    second phase, run over what the first one has written, gives the text that one phase gives which
    replaces the names of both.  This is the fragment with every shown name replaced that has a text in
    either phase, and all else as it was.

    Neither the quotes of the fragment nor the texts of the second phase matter.  A name that has a text
    in both phases is replaced in the first one. -/
theorem substitute_in_two_phases {m : Type → Type} [Monad m] [LawfulMonad m]
    {both : String → Option String} (hboth : ∀ name, both name = (first name).or (second name))
    (hclosed : ∀ name value, first name = some value → value.toList.count '\'' % 2 = 0)
    (hapart : ∀ name value, first name = some value →
      ∀ before other after, Shows value before other after → second other = none) (text : String) :
    (substitute (fun name => pure (first name)) text >>= substitute fun name => pure (second name)) =
        (substitute (fun name => pure (both name)) text : m String) ∧
      ∃ out, Rewrites both text out ∧
        substitute (fun name => pure (both name)) text = (pure out : m String) := by
  obtain rfl : both = fun name => (first name).or (second name) := funext hboth
  have hbalanced : ∀ name value, first name = some value → Balanced value := by
    intro name value hvalue
    exact balanced_iff_even_count.2 (hclosed name value hvalue)
  have hvisible : ∀ name value, first name = some value →
      ∀ other ∈ visibleNames value, second other = none := by
    intro name value hvalue other hother
    obtain ⟨before, after, hshows⟩ := mem_visibleNames_iff.1 hother
    exact hapart name value hvalue before other after hshows
  refine ⟨?_, _, rewrites_iff.2 rfl, substitute_pure _ _⟩
  rw [substitute_pure, substitute_pure, pure_bind, substitute_pure,
    replaceNames_replaceNames hbalanced hvisible]

/-- Texts for a first phase: one that shows no name, and an empty one. -/
def earlyTexts : NameTable String :=
  .ofList [("lit1", "'a var1'"), ("lit2", "")]

/-- A text for a second phase, with a quote that is not closed. -/
def lateTexts : NameTable String :=
  .ofList [("var1", "it's")]

/-- A fragment with a quote that is not closed either, and that hides one of the names. -/
theorem substitute_in_two_phases_openQuotes :
    (substitute (fun name => pure (earlyTexts.get? name)) "[lit1, var1, lit2, 'lit1" >>=
        substitute fun name => pure (lateTexts.get? name)) =
      (pure "['a var1', it's, , 'lit1" : Id String) := by
  have hclosed : ∀ e ∈ earlyTexts.entries, e.2.toList.count '\'' % 2 = 0 := by decide +kernel
  have hapart : ∀ e ∈ earlyTexts.entries, ∀ other ∈ visibleNames e.2, lateTexts.get? other = none := by
    decide +kernel
  have honce : Id.run (substitute (fun name => pure ((earlyTexts.get? name).or (lateTexts.get? name)))
      "[lit1, var1, lit2, 'lit1") = "['a var1', it's, , 'lit1" := by decide +kernel
  refine (substitute_in_two_phases (fun _ => rfl) ?_ ?_ _).1.trans honce
  · intro name value hvalue
    exact hclosed (name, value) (earlyTexts.mem_entries_iff.2 hvalue)
  · intro name value hvalue before other after hshows
    exact hapart (name, value) (earlyTexts.mem_entries_iff.2 hvalue) other
      (mem_visibleNames_iff.2 ⟨before, after, hshows⟩)

end QueryPipeline
