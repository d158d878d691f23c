import QueryPipeline.Proofs.Fragment.Nesting

/-!
# Where a text shows a name

Scanning finds names by going through a text character by character.  What it finds can be told
without it: a text shows a name wherever the name is a whole run of word characters, starts like a
name, and has an even number of quotes before it.  In the same way a text with its names replaced
can be told place by place.

## Main definitions

- `Shows`: a text shows a name at a place.
- `Segment.IsCut`: the lists of segments that texts are cut into.
- `Becomes`, `Rewrites`: what a text becomes, from a place on and as a whole.

## Main statements

- `shows_iff`: the names that scanning finds are those that the text shows.
- `exists_shows_of_visibleNames`, `exists_visibleNames_of_shows`: they are found in the order in
  which they stand.
- `rewrites_iff`: replacing names is what `Rewrites` describes.
-/

namespace QueryPipeline

open Segment

/-! ## §1 Places -/

/-- **A text shows a name** between what stands before and after it: the name is as long as word
    characters go on both sides, and an even number of quotes stands before it. -/
structure Shows (text : String) (before : List Char) (name : String) (after : List Char) :
    Prop where
  split : text.toList = before ++ (name.toList ++ after)
  isName : IsName name
  free_before : ∀ c ∈ before.getLast?, isWordChar c = false
  free_after : ∀ c ∈ after.head?, isWordChar c = false
  outside : before.count '\'' % 2 = 0

/-! ## §2 Cuts -/

namespace Segment

/-- The lists of segments that a text is cut into, from inside or outside quotes. -/
inductive IsCut : Bool → List Segment → Prop
  | nil {quoted : Bool} : IsCut quoted []
  | quote {quoted : Bool} {rest : List Segment} (next : IsCut (!quoted) rest) :
      IsCut quoted (plain '\'' :: rest)
  /-- Inside quotes every character stands for itself, outside every one that is in no word. -/
  | plain {quoted : Bool} {c : Char} {rest : List Segment} (noQuote : c ≠ '\'')
      (apart : isWordChar c = true → quoted = true) (next : IsCut quoted rest) :
      IsCut quoted (plain c :: rest)
  /-- A run ends where no other run starts. -/
  | run {w : List Char} {rest : List Segment} (nonempty : w ≠ [])
      (word : ∀ c ∈ w, isWordChar c = true) (ends : ∀ v, rest.head? ≠ some (run v))
      (next : IsCut false rest) : IsCut false (run w :: rest)

theorem IsCut.extend {c : Char} {l : List Segment} (hc : isWordChar c = true) (h : IsCut false l) :
    IsCut false (extend c l) := by
  have halone : ∀ rest, IsCut false rest → (∀ v, rest.head? ≠ some (Segment.run v)) →
      IsCut false (Segment.run [c] :: rest) := fun rest hrest hends =>
    .run (by simp) (by simpa using hc) hends hrest
  cases h with
  | nil => exact halone [] .nil (by simp)
  | quote next => exact halone _ (.quote next) (by simp)
  | plain noQuote apart next => exact halone _ (.plain noQuote apart next) (by simp)
  | run nonempty word ends next =>
    -- the character joins the run
    exact .run (by simp) (List.forall_mem_cons.2 ⟨hc, word⟩) ends next

/-- Scanning cuts a text. -/
theorem isCut_scan (quoted : Bool) (cs : List Char) : IsCut quoted (scan quoted cs) := by
  induction cs generalizing quoted with
  | nil => exact .nil
  | cons c cs ih =>
    rw [scan_cons]
    split
    · rename_i hquote
      subst hquote
      exact .quote (ih _)
    · rename_i hquote
      split
      · rename_i hplain
        refine .plain hquote (fun hword => ?_) (ih quoted)
        simpa [hword] using hplain
      · rename_i hword
        simp only [Bool.or_eq_true, Bool.not_eq_true', not_or, Bool.not_eq_true,
          Bool.not_eq_false] at hword
        obtain ⟨rfl, hword⟩ := hword
        exact (ih false).extend hword

theorem IsCut.chars_ne_nil {quoted : Bool} {l : List Segment} (h : IsCut quoted l) {s : Segment}
    (hs : s ∈ l) : s.chars ≠ [] := by
  induction h with
  | nil => cases hs
  | quote _ ih =>
    rcases List.mem_cons.1 hs with rfl | hs
    · simp [chars]
    · exact ih hs
  | plain _ _ _ ih =>
    rcases List.mem_cons.1 hs with rfl | hs
    · simp [chars]
    · exact ih hs
  | run nonempty _ _ _ ih =>
    rcases List.mem_cons.1 hs with rfl | hs
    · exact nonempty
    · exact ih hs

/-- Where a cut begins with no run, outside quotes, no word character stands. -/
theorem IsCut.head_of_no_run {l : List Segment} (h : IsCut false l)
    (hstart : ∀ v, l.head? ≠ some (Segment.run v)) :
    ∀ c ∈ (l.flatMap chars).head?, isWordChar c = false := by
  intro c hc
  cases h with
  | nil => cases hc
  | quote _ =>
    cases hc
    decide
  | plain _ apart _ =>
    cases hc
    exact Bool.eq_false_iff.2 fun hword => Bool.false_ne_true (apart hword)
  | run => exact absurd rfl (hstart _)

/-- Segments of a cut that hold no characters are none. -/
theorem IsCut.eq_nil_of_flatMap {quoted : Bool} {l part : List Segment} (h : IsCut quoted l)
    (hpart : part ⊆ l) (hnone : part.flatMap chars = []) : part = [] := by
  cases part with
  | nil => rfl
  | cons s rest =>
    have hs := (List.append_eq_nil_iff.1 hnone).1
    exact absurd hs (h.chars_ne_nil (hpart List.mem_cons_self))

/-- A cut is divided in one way only by the characters on either side. -/
theorem IsCut.split_unique {quoted : Bool} {l left right left' right' : List Segment}
    (h : IsCut quoted l) (hl : l = left ++ right) (hl' : l = left' ++ right')
    (hchars : left.flatMap chars = left'.flatMap chars) : left = left' ∧ right = right' := by
  rcases List.append_eq_append_iff.1 (hl.symm.trans hl') with ⟨gap, rfl, rfl⟩ | ⟨gap, rfl, rfl⟩
  · have hgap : gap = [] := h.eq_nil_of_flatMap (by simp [hl]) (by simpa using hchars)
    simp [hgap]
  · have hgap : gap = [] := h.eq_nil_of_flatMap (by simp [hl]) (by simpa using hchars)
    simp [hgap]

theorem quote_not_mem_of_word {w : List Char} (h : ∀ c ∈ w, isWordChar c = true) : '\'' ∉ w := by
  intro hquote
  exact absurd (h _ hquote) (by decide)

/-- A run of a cut stands outside quotes, between characters that are in no word. -/
theorem IsCut.around_run {quoted : Bool} {left right : List Segment} {w : List Char}
    (h : IsCut quoted (left ++ Segment.run w :: right)) :
    quotedAfter quoted (left.flatMap chars) = false ∧ (∀ c ∈ w, isWordChar c = true) ∧
      (∀ c ∈ (left.flatMap chars).getLast?, isWordChar c = false) ∧
      ∀ c ∈ (right.flatMap chars).head?, isWordChar c = false := by
  induction left generalizing quoted with
  | nil =>
    cases h with
    | run _ word ends next => exact ⟨rfl, word, by simp, next.head_of_no_run ends⟩
  | cons s left ih =>
    -- behind the first segment all is as before, only that segment may itself be the last one
    have hlast : ∀ {after : Bool}, IsCut after (left ++ Segment.run w :: right) →
        (left = [] → ∀ c ∈ s.chars.getLast?, isWordChar c = false) →
        ∀ c ∈ ((s :: left).flatMap chars).getLast?, isWordChar c = false := by
      intro after hnext hs c hc
      rw [List.flatMap_cons, List.getLast?_append, Option.mem_def, Option.or_eq_some_iff] at hc
      rcases hc with hc | ⟨hnone, hc⟩
      · exact (ih hnext).2.2.1 c hc
      · refine hs (hnext.eq_nil_of_flatMap (by simp) ?_) c hc
        simpa using hnone
    cases h with
    | quote next =>
      obtain ⟨hquoted, hword, _, hafter⟩ := ih next
      refine ⟨hquoted, hword, hlast next fun _ c hc => ?_, hafter⟩
      cases hc
      decide
    | plain noQuote apart next =>
      obtain ⟨hquoted, hword, _, hafter⟩ := ih next
      refine ⟨?_, hword, hlast next fun hleft c hc => ?_, hafter⟩
      · rw [List.flatMap_cons, chars, List.singleton_append, quotedAfter_cons, if_neg noQuote]
        exact hquoted
      · -- a run follows at once, so no quotes are open here
        subst hleft
        cases hc
        cases next
        exact Bool.eq_false_iff.2 fun hc => Bool.false_ne_true (apart hc)
    | run _ word ends next =>
      obtain ⟨hquoted, hw, _, hafter⟩ := ih next
      refine ⟨?_, hw, hlast next fun hleft => ?_, hafter⟩
      · rw [List.flatMap_cons, chars, quotedAfter_append,
          quotedAfter_of_not_mem (quote_not_mem_of_word word)]
        exact hquoted
      · subst hleft
        exact absurd rfl (ends w)

end Segment

/-! ## §3 What scanning finds -/

theorem isCut_ofText (text : String) : IsCut false (ofText text) :=
  isCut_scan false text.toList

theorem flatMap_chars_ofText (text : String) : (ofText text).flatMap chars = text.toList :=
  flatMap_chars_scan false text.toList

/-- The name of a segment of a cut is its text. -/
theorem exists_run_of_name? {s : Segment} {name : String} (h : s.name? = some name) :
    s = run name.toList ∧ ∃ c ∈ name.toList.head?, isNameStart c = true := by
  unfold name? at h
  split at h
  · cases h
  · cases h
  · split at h
    · rename_i c cs hstart
      cases h
      simp [hstart]
    · cases h

/-- **The names that scanning finds are those that the text shows**, each at its place. -/
theorem shows_iff {text name : String} {before after : List Char} :
    Shows text before name after ↔
      ∃ left s right, ofText text = left ++ s :: right ∧ s.name? = some name ∧
        left.flatMap chars = before ∧ right.flatMap chars = after := by
  constructor
  · intro h
    have hbefore : quotedAfter false before = false := quotedAfter_eq_self_iff.2 h.outside
    have hname : quotedAfter false name.toList = false := h.isName.balanced
    refine ⟨scan false before, run name.toList, scan false after, ?_, h.isName.name?_run,
      flatMap_chars_scan false before, flatMap_chars_scan false after⟩
    have hrun : scan false name.toList = [run name.toList] := h.isName.ofText_eq
    rw [ofText, h.split, scan_append (.inl h.free_before), hbefore,
      scan_append (.inr h.free_after), hname, hrun]
    rfl
  · rintro ⟨left, s, right, htext, hname, rfl, rfl⟩
    obtain ⟨rfl, hstart⟩ := exists_run_of_name? hname
    have hcut := isCut_ofText text
    rw [htext] at hcut
    obtain ⟨hquoted, hword, hbefore, hafter⟩ := hcut.around_run
    refine ⟨?_, ⟨hstart, List.all_eq_true.2 hword⟩, hbefore, hafter,
      quotedAfter_eq_self_iff.1 hquoted⟩
    rw [← flatMap_chars_ofText, htext, List.flatMap_append, List.flatMap_cons]
    rfl

theorem mem_visibleNames_iff {text name : String} :
    name ∈ visibleNames text ↔ ∃ before after, Shows text before name after := by
  rw [visibleNames, List.mem_filterMap]
  constructor
  · rintro ⟨s, hs, hname⟩
    obtain ⟨left, right, htext⟩ := List.append_of_mem hs
    exact ⟨_, _, shows_iff.2 ⟨left, s, right, htext, hname, rfl, rfl⟩⟩
  · rintro ⟨before, after, h⟩
    obtain ⟨left, s, right, htext, hname, _, _⟩ := shows_iff.1 h
    exact ⟨s, by simp [htext], hname⟩

/-! ## §4 The order of names -/

/-- What stands before a name is found before it. -/
theorem exists_visibleNames_of_shows {text name : String} {before after : List Char}
    (h : Shows text before name after) :
    ∃ earlier later, visibleNames text = earlier ++ name :: later ∧
      ∀ other ∈ earlier, ∃ before' after', Shows text before' other after' ∧
        before'.length < before.length := by
  obtain ⟨left, s, right, htext, hname, rfl, rfl⟩ := shows_iff.1 h
  refine ⟨left.filterMap name?, right.filterMap name?, ?_, ?_⟩
  · rw [visibleNames, htext, List.filterMap_append, List.filterMap_cons, hname]
  · intro other hother
    obtain ⟨t, ht, htname⟩ := List.mem_filterMap.1 hother
    obtain ⟨front, back, rfl⟩ := List.append_of_mem ht
    refine ⟨front.flatMap chars, (back ++ s :: right).flatMap chars,
      shows_iff.2 ⟨front, t, back ++ s :: right, by simpa using htext, htname, rfl, rfl⟩, ?_⟩
    have ht : t.chars ≠ [] := (isCut_ofText text).chars_ne_nil (by simp [htext])
    have hlength := List.length_pos_iff.2 ht
    rw [List.flatMap_append, List.flatMap_cons, List.length_append, List.length_append]
    omega

/-- What is found before a name stands before it. -/
theorem exists_shows_of_visibleNames {text name : String} {earlier later : List String}
    (h : visibleNames text = earlier ++ name :: later) :
    ∃ before after, Shows text before name after ∧
      ∀ before' other after', Shows text before' other after' → before'.length < before.length →
        other ∈ earlier := by
  obtain ⟨left, rest, htext, rfl, hrest⟩ := List.filterMap_eq_append_iff.1 h
  obtain ⟨skipped, s, right, rfl, hskipped, hname, rfl⟩ := List.filterMap_eq_cons_iff.1 hrest
  have hsplit : ofText text = (left ++ skipped) ++ s :: right := by simpa using htext
  refine ⟨_, _, shows_iff.2 ⟨left ++ skipped, s, right, hsplit, hname, rfl, rfl⟩, ?_⟩
  intro before' other after' hother hlength
  obtain ⟨left', t, right', htext', htname, rfl, rfl⟩ := shows_iff.1 hother
  have hnone : skipped.filterMap name? = [] := List.filterMap_eq_nil_iff.2 hskipped
  have hearlier : left.filterMap name? = (left ++ skipped).filterMap name? := by
    rw [List.filterMap_append, hnone, List.append_nil]
  rw [hearlier]
  rcases List.append_eq_append_iff.1 (htext'.symm.trans hsplit) with
    ⟨gap, hgap, hmid⟩ | ⟨gap, hgap, _⟩
  · -- the other name stands before the gap, and the gap is not empty
    cases gap with
    | nil => simp [hgap] at hlength
    | cons u gap =>
      cases hmid
      rw [hgap]
      exact List.mem_filterMap.2 ⟨t, by simp, htname⟩
  · rw [hgap, List.flatMap_append, List.length_append] at hlength
    omega

/-! ## §5 Names replaced -/

/-- **What a text becomes** from a place on, where `before` stands before it and `rest` is left: a
    name that is shown there is replaced if it has a replacement, and otherwise one character stays.
    -/
inductive Becomes (text : String) (replace : String → Option String) :
    List Char → List Char → List Char → Prop
  | done {before : List Char} : Becomes text replace before [] []
  | replaced {before rest after out : List Char} {name value : String}
      (shown : Shows text before name after) (split : rest = name.toList ++ after)
      (known : replace name = some value)
      (next : Becomes text replace (before ++ name.toList) after out) :
      Becomes text replace before rest (value.toList ++ out)
  | kept {before after out : List Char} {c : Char}
      (other : ∀ name after, Shows text before name after → replace name = none)
      (next : Becomes text replace (before ++ [c]) after out) :
      Becomes text replace before (c :: after) (c :: out)

/-- A text with every shown name replaced that has a replacement, and all else as it was. -/
def Rewrites (replace : String → Option String) (text out : String) : Prop :=
  Becomes text replace [] text.toList out.toList

section

variable {text : String} {replace : String → Option String}

/-- At a place no more than one name is shown. -/
theorem Shows.unique {before after after' : List Char} {name name' : String}
    (h : Shows text before name after) (h' : Shows text before name' after') :
    name = name' ∧ after = after' := by
  obtain ⟨left, s, right, htext, hname, rfl, rfl⟩ := shows_iff.1 h
  obtain ⟨left', s', right', htext', hname', hchars, rfl⟩ := shows_iff.1 h'
  obtain ⟨_, hsame⟩ := (isCut_ofText text).split_unique htext htext' hchars.symm
  cases hsame
  cases hname.symm.trans hname'
  exact ⟨rfl, rfl⟩

theorem Shows.name_ne_nil {before after : List Char} {name : String}
    (h : Shows text before name after) : name.toList ≠ [] := by
  obtain ⟨c, hc, _⟩ := h.isName.start
  rintro hnil
  simp [hnil] at hc

/-- The rules leave no choice: what a text becomes is determined by its names. -/
theorem Becomes.unique {before rest out out' : List Char} (h : Becomes text replace before rest out)
    (h' : Becomes text replace before rest out') : out = out' := by
  induction h generalizing out' with
  | done =>
    cases h' with
    | done => rfl
    | replaced shown split => simp [shown.name_ne_nil] at split
  | replaced shown split known next ih =>
    cases h' with
    | done => simp [shown.name_ne_nil] at split
    | replaced shown' _ known' next' =>
      obtain ⟨rfl, rfl⟩ := shown.unique shown'
      cases known.symm.trans known'
      rw [ih next']
    | kept other => simp [other _ _ shown] at known
  | kept other next ih =>
    cases h' with
    | replaced shown _ known => simp [other _ _ shown] at known
    | kept _ next' => rw [ih next']

/-- Characters stay as long as no name with a replacement is shown at any of them. -/
theorem Becomes.keep {before cs after out : List Char}
    (h : ∀ front c back, cs = front ++ c :: back → ∀ name rest,
      Shows text (before ++ front) name rest → replace name = none)
    (next : Becomes text replace (before ++ cs) after out) :
    Becomes text replace before (cs ++ after) (cs ++ out) := by
  induction cs generalizing before with
  | nil => simpa using next
  | cons c cs ih =>
    refine .kept (fun name rest hshown => h [] c cs rfl name rest (by simpa using hshown)) ?_
    refine ih (fun front d back hcs name rest hshown => ?_) (by simpa using next)
    exact h (c :: front) d back (by rw [hcs]; rfl) name rest (by simpa using hshown)

/-- In a segment whose name has no replacement, no such name is shown at any character. -/
theorem replace_eq_none_of_segment {left right : List Segment} {s : Segment}
    (htext : ofText text = left ++ s :: right) (hs : s.name?.bind replace = none)
    {front back : List Char} {c : Char} (hchars : s.chars = front ++ c :: back) {name : String}
    {rest : List Char} (h : Shows text (left.flatMap chars ++ front) name rest) :
    replace name = none := by
  have hcut := isCut_ofText text
  cases front with
  | nil =>
    -- at its first character only the name of the segment can be shown
    obtain ⟨left', s', right', htext', hname, hbefore, _⟩ := shows_iff.1 h
    obtain ⟨_, hsame⟩ := hcut.split_unique htext htext' (by simpa using hbefore.symm)
    cases hsame
    rwa [hname] at hs
  | cons d front =>
    -- behind it a word character stands before the place
    cases s with
    | plain e => simp [chars] at hchars
    | run w =>
      rw [htext] at hcut
      obtain ⟨_, hword, _, _⟩ := hcut.around_run
      obtain ⟨last, hlast⟩ : ∃ last, (d :: front).getLast? = some last :=
        ⟨_, List.getLast?_eq_some_getLast (List.cons_ne_nil d front)⟩
      have hfree := h.free_before last (by rw [List.getLast?_append, hlast]; rfl)
      have hmem : last ∈ w := by
        have hw : w = (d :: front) ++ c :: back := hchars
        rw [hw]
        exact List.mem_append_left _ (List.mem_of_getLast? hlast)
      rw [hword last hmem] at hfree
      cases hfree

/-- Segment by segment, a text becomes what its segments are rewritten to. -/
theorem becomes_flatMap_rewrite {left right : List Segment} (htext : ofText text = left ++ right) :
    Becomes text replace (left.flatMap chars) (right.flatMap chars)
      (right.flatMap fun s => (s.rewrite replace).toList) := by
  induction right generalizing left with
  | nil => exact .done
  | cons s right ih =>
    have hnext := @ih (left ++ [s]) (by simpa using htext)
    rw [List.flatMap_append, List.flatMap_singleton] at hnext
    rw [List.flatMap_cons, List.flatMap_cons]
    cases hs : s.name?.bind replace with
    | some value =>
      obtain ⟨name, hname, hvalue⟩ := Option.bind_eq_some_iff.1 hs
      have hshown := shows_iff.2 ⟨left, s, right, htext, hname, rfl, rfl⟩
      rw [s.rewrite_of_some hs]
      obtain ⟨rfl, _⟩ := exists_run_of_name? hname
      exact .replaced hshown rfl hvalue hnext
    | none =>
      rw [s.rewrite_of_none hs, Segment.text, String.toList_ofList]
      exact .keep (fun front c back hchars name rest => replace_eq_none_of_segment htext hs hchars)
        hnext

/-- **Replacing names** replaces exactly the names that the text shows, and nothing else. -/
theorem rewrites_iff {out : String} :
    Rewrites replace text out ↔ out = replaceNames replace text := by
  have hbecomes : Becomes text replace [] ((ofText text).flatMap chars)
      ((ofText text).flatMap fun s => (s.rewrite replace).toList) :=
    @becomes_flatMap_rewrite text replace [] (ofText text) rfl
  have hout : (ofText text).flatMap (fun s => (s.rewrite replace).toList) =
      (replaceNames replace text).toList := by
    rw [replaceNames, String.toList_join, List.flatMap_map]
  rw [flatMap_chars_ofText, hout] at hbecomes
  constructor
  · intro h
    exact String.toList_injective (h.unique hbecomes)
  · rintro rfl
    exact hbecomes

end

end QueryPipeline
