import Mathlib.Data.List.Chain
import QueryPipeline.Proofs.Fragment.Scan

/-!
# Texts in pieces, with quotes left open

A constant may bring a quote of its own into a fragment.  Behind it everything is scanned with the
quotes the other way round: what stood between quotes is visible, and what stood outside is hidden.
To follow this, a text is cut into pieces, and each piece is scanned from the quotes that the pieces
before it have left.

Replacing names in such a text may go wrong in two ways, and both show: the text parts from the one
that was meant at the first piece where it went wrong.

## Main definitions

- `Piece`: fixed texts, and slots for values.
- `Piece.placed`: pieces with the quotes they start in.
- `Parts`: texts that differ before either of them ends.
- `Piece.Fills`: a text with holes, and what is to be written in them.

## Main statements

- `Piece.namesFrom_textOf`, `Piece.replaceFrom_textOf`: scanning piece by piece.
- `parts_replaceFrom`: a text in which a name was replaced parts from what it was.
- `join_eq_iff`: texts that are equal or part piece by piece.
- `Piece.Fills.replaceNames_eq`, `Piece.Fills.replaceNames_eq_iff`: when replacing names fills the holes
  of a text.
-/

namespace QueryPipeline

open Segment

/-! ## §1 Texts that start inside quotes -/

/-- Inside quotes, a text without quotes is read character by character. -/
theorem scan_true_of_quoteFree {text : String} (h : QuoteFree text) :
    scan true text.toList = text.toList.map plain := by
  have hscan := scan_quoted h []
  rwa [List.append_nil, scan, List.append_nil] at hscan

/-- A name is visible outside quotes only. -/
theorem IsName.namesFrom_eq {text : String} (h : IsName text) (quoted : Bool) :
    namesFrom quoted text = if quoted then [] else [text] := by
  cases quoted with
  | false => exact h.visibleNames_eq
  | true => rw [namesFrom, scan_true_of_quoteFree h.quoteFree, filterMap_name?_plain, if_pos rfl]

/-- A name is replaced outside quotes only. -/
theorem IsName.replaceFrom_eq {text : String} (h : IsName text) (quoted : Bool)
    (replace : String → Option String) :
    replaceFrom quoted replace text = if quoted then text else (replace text).getD text := by
  cases quoted with
  | false => exact h.replaceNames_eq replace
  | true =>
    rw [replaceFrom, scan_true_of_quoteFree h.quoteFree, join_rewrite_plain, String.ofList_toList,
      if_pos rfl]

/-! ## §2 Pieces -/

/-- Fixed texts, and slots in which values are written. -/
inductive Piece (α : Type) where
  | fixed (text : String)
  | slot (a : α)

namespace Piece

variable {α : Type}

def text (write : α → String) : Piece α → String
  | fixed text => text
  | slot a => write a

def slot? : Piece α → Option α
  | fixed _ => none
  | slot a => some a

/-- The text of pieces in a row. -/
def textOf (write : α → String) (pieces : List (Piece α)) : String :=
  String.join (pieces.map (text write))

/-- Fixed texts that no word reaches into, from neither side. -/
def IsSeparator : Piece α → Prop
  | fixed text =>
    (∃ c ∈ text.toList.head?, isWordChar c = false) ∧
      ∃ c ∈ text.toList.getLast?, isWordChar c = false
  | slot _ => False

/-- Of two neighbours one is a separator. -/
def Separated (pieces : List (Piece α)) : Prop :=
  pieces.IsChain fun p next => p.IsSeparator ∨ next.IsSeparator

/-- Pieces between two separators. -/
theorem Separated.enclose {opening closing : Piece α} {pieces : List (Piece α)}
    (h : Separated pieces) (hopening : opening.IsSeparator) (hclosing : closing.IsSeparator) :
    Separated (opening :: (pieces ++ [closing])) := by
  refine List.isChain_cons.2 ⟨fun _ _ => .inl hopening, List.isChain_append.2 ⟨h, ?_, ?_⟩⟩
  · exact List.isChain_singleton _
  · intro p _ next hnext
    cases hnext
    exact .inr hclosing

/-- Pieces with a separator between them. -/
theorem Separated.join {left right : List (Piece α)} {separator : Piece α} (hleft : Separated left)
    (hright : Separated right) (hseparator : separator.IsSeparator) :
    Separated (left ++ separator :: right) := by
  refine List.isChain_append.2 ⟨hleft, List.isChain_cons.2 ⟨fun _ _ => .inl hseparator, hright⟩, ?_⟩
  intro p _ next hnext
  cases hnext
  exact .inr hseparator

/-- Pieces with the quotes they start in: inside or outside. -/
def placed (write : α → String) : Bool → List (Piece α) → List (Bool × Piece α)
  | _, [] => []
  | quoted, p :: rest =>
    (quoted, p) :: placed write (quotedAfter quoted (p.text write).toList) rest

theorem map_snd_placed (write : α → String) (quoted : Bool) (pieces : List (Piece α)) :
    (placed write quoted pieces).map Prod.snd = pieces := by
  induction pieces generalizing quoted with
  | nil => rfl
  | cons p rest ih => rw [placed, List.map_cons, ih]

theorem mem_of_mem_placed {write : α → String} {quoted : Bool} {pieces : List (Piece α)}
    {p : Bool × Piece α} (hp : p ∈ placed write quoted pieces) : p.2 ∈ pieces := by
  rw [← map_snd_placed write quoted pieces]
  exact List.mem_map.2 ⟨p, hp, rfl⟩

theorem exists_placed_of_slot (write : α → String) (quoted : Bool) {pieces : List (Piece α)} {a : α}
    (ha : a ∈ pieces.filterMap slot?) : ∃ p ∈ placed write quoted pieces, p.2 = .slot a := by
  rw [← map_snd_placed write quoted pieces, List.filterMap_map] at ha
  obtain ⟨p, hp, hslot⟩ := List.mem_filterMap.1 ha
  obtain ⟨_, _ | _⟩ := p
  · cases hslot
  · cases hslot
    exact ⟨_, hp, rfl⟩

/-- The place of the pieces depends on the quotes in the values only. -/
theorem placed_congr {write other : α → String} {pieces : List (Piece α)}
    (h : ∀ a ∈ pieces.filterMap slot?, ∀ quoted,
      quotedAfter quoted (write a).toList = quotedAfter quoted (other a).toList) (quoted : Bool) :
    placed write quoted pieces = placed other quoted pieces := by
  induction pieces generalizing quoted with
  | nil => rfl
  | cons p rest ih =>
    cases p with
    | fixed text => rw [placed, placed, ih h]; rfl
    | slot a =>
      obtain ⟨hfirst, hrest⟩ := List.forall_mem_cons.1 h
      rw [placed, placed, ih hrest, text, text, hfirst quoted]

theorem textOf_cons (write : α → String) (p : Piece α) (rest : List (Piece α)) :
    textOf write (p :: rest) = p.text write ++ textOf write rest := by
  apply String.toList_injective
  simp [textOf]

/-- The pieces in their places are the text, whatever is written in the slots. -/
theorem textOf_eq_join_placed (write other : α → String) (quoted : Bool) (pieces : List (Piece α)) :
    textOf write pieces =
      String.join ((placed other quoted pieces).map fun p => p.2.text write) := by
  have hmap := congrArg (List.map (text write)) (map_snd_placed other quoted pieces)
  rw [List.map_map] at hmap
  rw [textOf, ← hmap]
  rfl

/-- The first character of a separator is the first one of the text that starts with it. -/
theorem IsSeparator.head_textOf {write : α → String} {p : Piece α} (h : p.IsSeparator)
    (rest : List (Piece α)) :
    ∀ c ∈ (textOf write (p :: rest)).toList.head?, isWordChar c = false := by
  cases p with
  | slot a => exact h.elim
  | fixed fixedText =>
    obtain ⟨⟨d, hd, hword⟩, _⟩ := h
    intro c hc
    rw [textOf_cons, text, String.toList_append, List.head?_append, Option.mem_def.1 hd] at hc
    cases hc
    exact hword

theorem IsSeparator.last_text {write : α → String} {p : Piece α} (h : p.IsSeparator) :
    ∀ c ∈ (p.text write).toList.getLast?, isWordChar c = false := by
  cases p with
  | slot a => exact h.elim
  | fixed fixedText =>
    obtain ⟨_, d, hd, hword⟩ := h
    intro c hc
    rw [text, Option.mem_def.1 hd] at hc
    cases hc
    exact hword

section

variable {write : α → String} {pieces : List (Piece α)} (h : Separated pieces)

include h

/-- **Scanning piece by piece.**  No word reaches across a separator, so each piece is scanned on
    its own, from the quotes that those before it have left. -/
theorem scan_textOf (quoted : Bool) :
    scan quoted (textOf write pieces).toList =
      (placed write quoted pieces).flatMap fun p => scan p.1 (p.2.text write).toList := by
  induction pieces generalizing quoted with
  | nil => rfl
  | cons p rest ih =>
    obtain ⟨hseam, hrest⟩ := List.isChain_cons.1 h
    have hends : (∀ c ∈ (p.text write).toList.getLast?, isWordChar c = false) ∨
        ∀ c ∈ (textOf write rest).toList.head?, isWordChar c = false := by
      cases rest with
      | nil => exact .inr nofun
      | cons next rest =>
        exact (hseam next rfl).imp IsSeparator.last_text fun hnext => hnext.head_textOf rest
    rw [textOf_cons, String.toList_append, scan_append hends, ih hrest, placed, List.flatMap_cons]

theorem namesFrom_textOf (quoted : Bool) :
    namesFrom quoted (textOf write pieces) =
      (placed write quoted pieces).flatMap fun p => namesFrom p.1 (p.2.text write) := by
  rw [namesFrom, scan_textOf h, List.filterMap_flatMap]
  rfl

/-- What a text shows, one of its pieces shows. -/
theorem mem_visibleNames_textOf {name : String} :
    name ∈ visibleNames (textOf write pieces) ↔
      ∃ p ∈ placed write false pieces, name ∈ namesFrom p.1 (p.2.text write) := by
  change name ∈ namesFrom false (textOf write pieces) ↔ _
  rw [namesFrom_textOf h, List.mem_flatMap]

theorem replaceFrom_textOf (quoted : Bool) (replace : String → Option String) :
    replaceFrom quoted replace (textOf write pieces) =
      String.join ((placed write quoted pieces).map fun p =>
        replaceFrom p.1 replace (p.2.text write)) := by
  apply String.toList_injective
  rw [replaceFrom, scan_textOf h, String.toList_join, String.toList_join, List.flatMap_map,
    List.flatMap_map, List.flatMap_assoc]
  simp only [replaceFrom, String.toList_join, List.flatMap_map]

end

end Piece

/-! ## §3 Texts that part -/

/-- Two texts that differ before either of them ends. -/
def Parts (a b : String) : Prop :=
  ∃ common c d rest rest', c ≠ d ∧ a.toList = common ++ c :: rest ∧ b.toList = common ++ d :: rest'

theorem Parts.ne {a b : String} (h : Parts a b) : a ≠ b := by
  obtain ⟨common, c, d, rest, rest', hne, ha, hb⟩ := h
  rintro rfl
  rw [ha] at hb
  exact hne (List.cons.inj (List.append_cancel_left hb)).1

/-- What follows does not matter. -/
theorem Parts.append {a b : String} (h : Parts a b) (x y : String) : Parts (a ++ x) (b ++ y) := by
  obtain ⟨common, c, d, rest, rest', hne, ha, hb⟩ := h
  refine ⟨common, c, d, rest ++ x.toList, rest' ++ y.toList, hne, ?_, ?_⟩
  · rw [String.toList_append, ha, List.append_assoc, List.cons_append]
  · rw [String.toList_append, hb, List.append_assoc, List.cons_append]

/-- Neither does what both have before. -/
theorem Parts.prepend {a b : String} (h : Parts a b) (x : String) : Parts (x ++ a) (x ++ b) := by
  obtain ⟨common, c, d, rest, rest', hne, ha, hb⟩ := h
  refine ⟨x.toList ++ common, c, d, rest, rest', hne, ?_, ?_⟩
  · rw [String.toList_append, ha, List.append_assoc]
  · rw [String.toList_append, hb, List.append_assoc]

theorem Parts.symm {a b : String} (h : Parts a b) : Parts b a := by
  obtain ⟨common, c, d, rest, rest', hne, ha, hb⟩ := h
  exact ⟨common, d, c, rest', rest, hne.symm, hb, ha⟩

/-- Texts that start with different characters part at once. -/
theorem Parts.of_head {a b : String} {c d : Char} (ha : a.toList.head? = some c)
    (hb : b.toList.head? = some d) (hne : c ≠ d) : Parts a b := by
  obtain ⟨rest, hrest⟩ := List.head?_eq_some_iff.1 ha
  obtain ⟨rest', hrest'⟩ := List.head?_eq_some_iff.1 hb
  exact ⟨[], c, d, rest, rest', hne, hrest, hrest'⟩

section

variable {β : Type} {l : List β} {f g : β → String}
  (h : ∀ x ∈ l, f x = g x ∨ Parts (f x) (g x))

include h

/-- Texts that are equal or part piece by piece, part as soon as one piece does. -/
theorem parts_join (hparts : ∃ x ∈ l, Parts (f x) (g x)) :
    Parts (String.join (l.map f)) (String.join (l.map g)) := by
  induction l with
  | nil =>
    obtain ⟨x, hx, _⟩ := hparts
    cases hx
  | cons first rest ih =>
    obtain ⟨hfirst, hrest⟩ := List.forall_mem_cons.1 h
    have hcons : ∀ t : β → String, String.join ((first :: rest).map t) =
        t first ++ String.join (rest.map t) := by
      intro t
      apply String.toList_injective
      simp
    rw [hcons, hcons]
    -- the first piece decides, unless it is the same
    rcases hfirst with heq | hfirst
    · rw [heq]
      obtain ⟨x, hx, hpartsX⟩ := hparts
      rcases List.mem_cons.1 hx with rfl | hx
      · exact absurd heq hpartsX.ne
      · exact (ih hrest ⟨x, hx, hpartsX⟩).prepend _
    · exact hfirst.append _ _

/-- **Equal texts are equal piece by piece**, if the pieces are equal or part. -/
theorem join_eq_iff :
    String.join (l.map f) = String.join (l.map g) ↔ ∀ x ∈ l, f x = g x := by
  constructor
  · intro heq x hx
    rcases h x hx with hequal | hparts
    · exact hequal
    · exact absurd heq (parts_join h ⟨x, hx, hparts⟩).ne
  · intro hequal
    rw [List.map_congr_left hequal]

end

/-! ## §4 Replaced names show -/

theorem Segment.text_of_name? {s : Segment} {name : String} (h : s.name? = some name) :
    s.text = name := by
  match s with
  | plain _ => cases h
  | run [] => cases h
  | run (c :: cs) =>
    rw [name?] at h
    split at h
    · exact Option.some.inj h
    · cases h

section

variable {replace : String → Option String}
  (h : ∀ name text, replace name = some text → Parts text name)

include h

/-- A segment stays as it is, or parts from what it was. -/
theorem Segment.rewrite_eq_or_parts (s : Segment) :
    s.rewrite replace = s.text ∨ Parts (s.rewrite replace) s.text := by
  cases hreplace : s.name?.bind replace with
  | none => exact .inl (s.rewrite_of_none hreplace)
  | some text =>
    obtain ⟨name, hname, htext⟩ := Option.bind_eq_some_iff.1 hreplace
    right
    rw [s.rewrite_of_some hreplace, s.text_of_name? hname]
    exact h name text htext

/-- **A text in which a name is replaced** parts from what it was. -/
theorem parts_replaceFrom {quoted : Bool} {text name : String}
    (hname : name ∈ namesFrom quoted text) (hreplace : replace name ≠ none) :
    Parts (replaceFrom quoted replace text) text := by
  obtain ⟨s, hs, hsname⟩ := List.mem_filterMap.1 hname
  obtain ⟨replacement, hreplacement⟩ := Option.ne_none_iff_exists'.1 hreplace
  have hparts : Parts (s.rewrite replace) s.text := by
    rw [s.rewrite_of_some (Option.bind_eq_some_iff.2 ⟨name, hsname, hreplacement⟩),
      s.text_of_name? hsname]
    exact h name replacement hreplacement
  have hjoin := parts_join (fun t _ => t.rewrite_eq_or_parts h) ⟨s, hs, hparts⟩
  rwa [join_text_scan] at hjoin

end

/-! ## §5 Holes that are filled -/

namespace Piece

variable {α : Type}

/-- What is written if the holes among the slots are left empty. -/
def emptied (hole : α → Bool) (write : α → String) (a : α) : String :=
  if hole a then "" else write a

/-- Some slots of a text are holes: a name of its own stands in each of them, for which another text
    is to be written.  The other slots are final. -/
structure Fills (hole : α → Bool) (write final : α → String) (replace : String → Option String)
    (pieces : List (Piece α)) : Prop where
  separated : Separated pieces
  isName : ∀ a ∈ pieces.filterMap slot?, hole a → IsName (write a)
  replaces : ∀ a ∈ pieces.filterMap slot?, hole a → replace (write a) = some (final a)
  keeps : ∀ a ∈ pieces.filterMap slot?, hole a = false → final a = write a
  once : (pieces.filterMap slot?).Pairwise fun a a' => hole a → hole a' → write a ≠ write a'

namespace Fills

variable {hole : α → Bool} {write final : α → String} {replace : String → Option String}
  {pieces : List (Piece α)} (h : Fills hole write final replace pieces)
  {p : Bool × Piece α} {a : α}

include h

/-- A piece is a hole, or else its text is final and is there without the holes too. -/
theorem cases_of_mem {piece : Piece α} (hpiece : piece ∈ pieces) :
    (∃ a ∈ pieces.filterMap slot?, piece = .slot a ∧ hole a) ∨
      piece.text final = piece.text write ∧
        piece.text (emptied hole write) = piece.text write := by
  cases piece with
  | fixed text => exact .inr ⟨rfl, rfl⟩
  | slot a =>
    have ha : a ∈ pieces.filterMap slot? := List.mem_filterMap.2 ⟨_, hpiece, rfl⟩
    cases hhole : hole a with
    | true => exact .inl ⟨a, ha, rfl, hhole⟩
    | false =>
      refine .inr ⟨h.keeps a ha hhole, ?_⟩
      simp [text, emptied, hhole]

/-- A hole stands in one place only. -/
theorem eq_of_slot_eq {p' : Bool × Piece α} (hp : p ∈ placed write false pieces)
    (hp' : p' ∈ placed write false pieces) {a' : α} (hslot : p.2 = .slot a)
    (hslot' : p'.2 = .slot a') (hhole : hole a) (hhole' : hole a') (hname : write a = write a') :
    p = p' := by
  have honce : (placed write false pieces).Pairwise fun p p' =>
      ∀ a, slot? p.2 = some a → ∀ a', slot? p'.2 = some a' → hole a → hole a' →
        write a ≠ write a' := by
    have honce := h.once
    rwa [← map_snd_placed write false pieces, List.filterMap_map, List.pairwise_filterMap] at honce
  have hsymm : Std.Symm fun p p' : Bool × Piece α =>
      ∀ a, slot? p.2 = some a → ∀ a', slot? p'.2 = some a' → hole a → hole a' →
        write a ≠ write a' :=
    ⟨fun _ _ hpair a ha a' ha' hhole hhole' => (hpair a' ha' a ha hhole' hhole).symm⟩
  by_contra hne
  -- two places would have the name twice
  exact honce.forall hp hp' hne a (by rw [hslot]; rfl) a' (by rw [hslot']; rfl) hhole hhole' hname

/-- Names have no quotes, so the pieces are in the same places without the holes. -/
theorem placed_emptied (quoted : Bool) :
    placed (emptied hole write) quoted pieces = placed write quoted pieces := by
  apply placed_congr
  intro a ha quoted
  unfold emptied
  split
  · rename_i hhole
    rw [quotedAfter_of_not_mem (h.isName a ha hhole).quoteFree]
    rfl
  · rfl

/-- What a text shows without its holes is shown by its pieces. -/
theorem mem_visibleNames_emptied_iff {name : String} :
    name ∈ visibleNames (textOf (emptied hole write) pieces) ↔
      ∃ p ∈ placed write false pieces, name ∈ namesFrom p.1 (p.2.text (emptied hole write)) := by
  rw [mem_visibleNames_textOf h.separated, h.placed_emptied]

/-- If nothing else shows the name of a hole, a hole that shows is in its place. -/
theorem unquoted_of_visible (hp : p ∈ placed write false pieces) (hslot : p.2 = .slot a)
    (hhole : hole a) (hvisible : write a ∈ visibleNames (textOf write pieces))
    (hdecoy : write a ∉ visibleNames (textOf (emptied hole write) pieces)) : p.1 = false := by
  obtain ⟨p', hp', hshown⟩ := (mem_visibleNames_textOf h.separated).1 hvisible
  rcases h.cases_of_mem (mem_of_mem_placed hp') with ⟨a', ha', hslot', hhole'⟩ | ⟨_, hfinal⟩
  · -- a hole shows its own name, and only outside quotes
    rw [hslot', text, (h.isName a' ha' hhole').namesFrom_eq] at hshown
    cases hquoted : p'.1 with
    | true =>
      rw [hquoted] at hshown
      cases hshown
    | false =>
      rw [hquoted] at hshown
      have hname : write a = write a' := List.mem_singleton.1 hshown
      rw [h.eq_of_slot_eq hp hp' hslot hslot' hhole hhole' hname, hquoted]
  · -- anything else that shows it is there without the holes too
    rw [← hfinal] at hshown
    exact absurd (h.mem_visibleNames_emptied_iff.2 ⟨p', hp', hshown⟩) hdecoy

theorem replaceFrom_hole (ha : a ∈ pieces.filterMap slot?) (hhole : hole a) (quoted : Bool) :
    replaceFrom quoted replace (write a) = if quoted then write a else final a := by
  rw [(h.isName a ha hhole).replaceFrom_eq, h.replaces a ha hhole]
  rfl

theorem replaceNames_textOf :
    replaceNames replace (textOf write pieces) =
      String.join ((placed write false pieces).map fun p =>
        replaceFrom p.1 replace (p.2.text write)) :=
  replaceFrom_textOf h.separated false replace

/-- **The holes are filled** if each of them shows, and nothing that shows without them is
    replaced. -/
theorem replaceNames_eq
    (hvisible : ∀ a ∈ pieces.filterMap slot?, hole a →
      write a ∈ visibleNames (textOf write pieces))
    (hdecoys : ∀ name ∈ visibleNames (textOf (emptied hole write) pieces), replace name = none) :
    replaceNames replace (textOf write pieces) = textOf final pieces := by
  rw [h.replaceNames_textOf, textOf_eq_join_placed final write false]
  refine congrArg String.join (List.map_congr_left fun p hp => ?_)
  rcases h.cases_of_mem (mem_of_mem_placed hp) with ⟨a, ha, hslot, hhole⟩ | ⟨hfinal, hframe⟩
  · have hdecoy : write a ∉ visibleNames (textOf (emptied hole write) pieces) := by
      intro hshown
      have hreplace := h.replaces a ha hhole
      rw [hdecoys _ hshown] at hreplace
      cases hreplace
    have hquoted := h.unquoted_of_visible hp hslot hhole (hvisible a ha hhole) hdecoy
    rw [hslot, text, text, h.replaceFrom_hole ha hhole, hquoted]
    rfl
  · rw [hfinal]
    apply replaceFrom_eq_self
    intro name hname
    rw [← hframe] at hname
    exact hdecoys name (h.mem_visibleNames_emptied_iff.2 ⟨p, hp, hname⟩)

variable (hparts : ∀ name text, replace name = some text → Parts text name)

include hparts

/-- Every piece comes out as it should, or parts from that. -/
theorem replaceFrom_eq_or_parts (hp : p ∈ placed write false pieces) :
    replaceFrom p.1 replace (p.2.text write) = p.2.text final ∨
      Parts (replaceFrom p.1 replace (p.2.text write)) (p.2.text final) := by
  rcases h.cases_of_mem (mem_of_mem_placed hp) with ⟨a, ha, hslot, hhole⟩ | ⟨hfinal, _⟩
  · rw [hslot, text, text, h.replaceFrom_hole ha hhole]
    cases p.1 with
    | false => exact .inl rfl
    | true => exact .inr (hparts _ _ (h.replaces a ha hhole)).symm
  · -- a text that is final goes wrong only if something in it is replaced
    rw [hfinal]
    by_cases hdecoy : ∃ name ∈ namesFrom p.1 (p.2.text write), replace name ≠ none
    · obtain ⟨name, hname, hreplaced⟩ := hdecoy
      exact .inr (parts_replaceFrom hparts hname hreplaced)
    · push Not at hdecoy
      exact .inl (replaceFrom_eq_self hdecoy)

/-- **The holes are filled exactly** if each of them shows, and nothing that shows without them is
    replaced. -/
theorem replaceNames_eq_iff :
    replaceNames replace (textOf write pieces) = textOf final pieces ↔
      (∀ a ∈ pieces.filterMap slot?, hole a → write a ∈ visibleNames (textOf write pieces)) ∧
        ∀ name ∈ visibleNames (textOf (emptied hole write) pieces), replace name = none := by
  refine ⟨?_, fun ⟨hvisible, hdecoys⟩ => h.replaceNames_eq hvisible hdecoys⟩
  rw [h.replaceNames_textOf, textOf_eq_join_placed final write false]
  -- a piece that comes out wrong is never made up for by a later one
  rw [join_eq_iff fun p hp => h.replaceFrom_eq_or_parts hparts hp]
  intro hright
  refine ⟨?_, ?_⟩
  · intro a ha hhole
    obtain ⟨p, hp, hslot⟩ := exists_placed_of_slot write false ha
    have hfilled := hright p hp
    rw [hslot, text, text, h.replaceFrom_hole ha hhole] at hfilled
    rw [mem_visibleNames_textOf h.separated]
    refine ⟨p, hp, ?_⟩
    rw [hslot, text, (h.isName a ha hhole).namesFrom_eq]
    cases hquoted : p.1 with
    | false => exact List.mem_singleton_self _
    | true =>
      -- the name would have been left
      rw [hquoted] at hfilled
      exact absurd hfilled (hparts _ _ (h.replaces a ha hhole)).ne.symm
  · intro name hname
    obtain ⟨p, hp, hname⟩ := h.mem_visibleNames_emptied_iff.1 hname
    by_contra hreplace
    rcases h.cases_of_mem (mem_of_mem_placed hp) with ⟨a, _, hslot, hhole⟩ | ⟨hfinal, hframe⟩
    · -- an empty hole shows nothing
      rw [hslot, text, emptied, if_pos hhole] at hname
      cases p.1 <;> cases hname
    · rw [hframe] at hname
      have hright := hright p hp
      rw [hfinal] at hright
      exact (parts_replaceFrom hparts hname hreplace).ne hright

end Fills

end Piece

end QueryPipeline
