import QueryPipeline.Proofs.Filter.Finalization
import QueryPipeline.Proofs.Fragment.Pieces
import QueryPipeline.Proofs.Fragment.ValueText

/-!
# Filter documents in pieces

The text of a filter document consists of fixed texts around its values.  While a filter is compiled
and resolved, names stand for some of the values, and texts are written in their place: the constants
when the filter is finished, the variables when it is resolved.  Either time the document is a text
with holes, one for each of these values.

## Main definitions

- `FilterDocument.pieces`: a document as fixed texts around its values.

## Main statements

- `FilterDocument.fills_pieces`: the holes of a numbered document.
- `parts_placeholderName`: what does not start like a placeholder is never mistaken for one.
-/

namespace QueryPipeline

/-! ## §1 Documents in pieces -/

namespace FilterDocument

variable {α : Type}

/-- The pieces of a document with one entry. -/
def entryPieces (name : String) (value : List (Piece α)) : List (Piece α) :=
  .fixed ("\x7b'" ++ name ++ "': ") :: (value ++ [.fixed "\x7d"])

def wrapPieces (wrapped : Bool) (name : String) (value : List (Piece α)) : List (Piece α) :=
  if wrapped then entryPieces name value else value

/-- A document as fixed texts around its values. -/
def pieces : FilterDocument α → List (Piece α)
  | predicate field negated op wrapped value =>
    entryPieces field (wrapPieces negated "$not"
      (entryPieces op.spelling (wrapPieces wrapped "$oid" [.slot value])))
  | junction j left right =>
    entryPieces j.spelling
      (.fixed "[" :: ((left.pieces ++ .fixed ", " :: right.pieces) ++ [.fixed "]"]))

theorem textOf_entryPieces (write : α → String) (name : String) (value : List (Piece α)) :
    Piece.textOf write (entryPieces name value) = singleton name (Piece.textOf write value) := by
  apply String.toList_injective
  rw [toList_singleton]
  simp [Piece.textOf, entryPieces, Piece.text]

theorem textOf_wrapPieces (write : α → String) (wrapped : Bool) (name : String)
    (value : List (Piece α)) :
    Piece.textOf write (wrapPieces wrapped name value) =
      wrapIf wrapped name (Piece.textOf write value) := by
  cases wrapped with
  | false => rfl
  | true => exact textOf_entryPieces write name value

/-- The pieces of a document are its text. -/
theorem textOf_pieces (write : α → String) (d : FilterDocument α) :
    Piece.textOf write d.pieces = d.render write := by
  induction d with
  | predicate field negated op wrapped value =>
    have hvalue : Piece.textOf write [.slot value] = write value := by
      apply String.toList_injective
      simp [Piece.textOf, Piece.text]
    rw [pieces, textOf_entryPieces, textOf_wrapPieces, textOf_entryPieces, textOf_wrapPieces, hvalue]
    rfl
  | junction j left right ihl ihr =>
    have hpair : Piece.textOf write
        (.fixed "[" :: ((left.pieces ++ .fixed ", " :: right.pieces) ++ [.fixed "]"])) =
        "[" ++ Piece.textOf write left.pieces ++ ", " ++ Piece.textOf write right.pieces ++ "]" := by
      apply String.toList_injective
      simp [Piece.textOf, Piece.text]
    rw [pieces, textOf_entryPieces, hpair, ihl, ihr, singleton_eq_spelled, render]

theorem separated_entryPieces {name : String} {value : List (Piece α)}
    (h : Piece.Separated value) : Piece.Separated (entryPieces name value) := by
  refine h.enclose ⟨⟨'\x7b', ?_, by decide⟩, ' ', ?_, by decide⟩
    ⟨⟨'\x7d', rfl, by decide⟩, '\x7d', rfl, by decide⟩
  · simp
  · rw [String.toList_append, List.getLast?_append]
    rfl

theorem separated_wrapPieces (wrapped : Bool) (name : String) {value : List (Piece α)}
    (h : Piece.Separated value) : Piece.Separated (wrapPieces wrapped name value) := by
  cases wrapped with
  | false => exact h
  | true => exact separated_entryPieces h

/-- Between two values of a document there is always some punctuation. -/
theorem separated_pieces (d : FilterDocument α) : Piece.Separated d.pieces := by
  induction d with
  | predicate field negated op wrapped value =>
    refine separated_entryPieces (separated_wrapPieces _ _ (separated_entryPieces
      (separated_wrapPieces _ _ ?_)))
    exact List.isChain_singleton _
  | junction j left right ihl ihr =>
    apply separated_entryPieces
    refine (ihl.join ihr ?_).enclose ?_ ?_
    · exact ⟨⟨',', rfl, by decide⟩, ' ', rfl, by decide⟩
    · exact ⟨⟨'[', rfl, by decide⟩, '[', rfl, by decide⟩
    · exact ⟨⟨']', rfl, by decide⟩, ']', rfl, by decide⟩

theorem slots_entryPieces (name : String) (value : List (Piece α)) :
    (entryPieces name value).filterMap Piece.slot? = value.filterMap Piece.slot? := by
  simp [entryPieces, Piece.slot?, List.filterMap_cons]

theorem slots_wrapPieces (wrapped : Bool) (name : String) (value : List (Piece α)) :
    (wrapPieces wrapped name value).filterMap Piece.slot? = value.filterMap Piece.slot? := by
  cases wrapped with
  | false => rfl
  | true => exact slots_entryPieces name value

/-- The slots of a document are its values, from left to right. -/
theorem slots_pieces (d : FilterDocument α) : d.pieces.filterMap Piece.slot? = d.values := by
  induction d with
  | predicate field negated op wrapped value =>
    rw [pieces, slots_entryPieces, slots_wrapPieces, slots_entryPieces, slots_wrapPieces]
    rfl
  | junction j left right ihl ihr =>
    rw [pieces, slots_entryPieces, values, ← ihl, ← ihr]
    simp [Piece.slot?, List.filterMap_cons]

/-! ## §2 Documents with holes -/

/-- No two values of a document have the same placeholder. -/
theorem pairwise_values_numbered (s : Sequence) (d : FilterDocument (Option PlaceholderEntry)) :
    (d.numbered s).values.Pairwise fun a a' =>
      ∀ named, a = some named → ∀ named', a' = some named' → named.1 ≠ named'.1 := by
  have hnodup := s.nodup_named d.entries
  rw [← values_numbered, List.Nodup, List.pairwise_map, List.pairwise_filterMap] at hnodup
  exact hnodup

/-- **A numbered document has holes** where placeholders stand that are replaced. -/
theorem fills_pieces {s : Sequence} {d : FilterDocument (Option PlaceholderEntry)}
    {hole : Option (String × PlaceholderEntry) → Bool}
    {write final : Option (String × PlaceholderEntry) → String} {replace : String → Option String}
    (hwrite : ∀ a, hole a → ∃ named, a = some named ∧ write a = named.1)
    (hreplace : ∀ name entry, (name, entry) ∈ s.named d.entries → hole (some (name, entry)) →
      replace name = some (final (some (name, entry))))
    (hkeep : ∀ a, hole a = false → final a = write a) :
    Piece.Fills hole write final replace (d.numbered s).pieces where
  separated := separated_pieces _
  isName := by
    intro a ha hhole
    rw [slots_pieces] at ha
    obtain ⟨_, rfl, hname⟩ := hwrite a hhole
    rw [hname]
    exact isName_nameText ha
  replaces := by
    intro a ha hhole
    rw [slots_pieces] at ha
    obtain ⟨_, rfl, hname⟩ := hwrite a hhole
    rw [hname]
    exact hreplace _ _ (mem_named_of_mem_values ha) hhole
  keeps := fun a _ hhole => hkeep a hhole
  once := by
    rw [slots_pieces]
    refine (pairwise_values_numbered s d).imp ?_
    intro a a' hpair hhole hhole'
    obtain ⟨named, ha, hname⟩ := hwrite a hhole
    obtain ⟨named', ha', hname'⟩ := hwrite a' hhole'
    rw [hname, hname']
    exact hpair named ha named' ha'

end FilterDocument

/-- What does not start like a placeholder is never mistaken for one. -/
theorem parts_placeholderName {text : String} (h : ∃ c ∈ text.toList.head?, c ∉ ['v', 'l'])
    (entry : PlaceholderEntry) (n : Nat) : Parts text (placeholderName entry n) := by
  obtain ⟨c, hc, hne⟩ := h
  have hname : ∃ d ∈ ['v', 'l'], (placeholderName entry n).toList.head? = some d := by
    cases entry <;> simp [placeholderName]
  obtain ⟨d, hd, hname⟩ := hname
  refine .of_head hc hname ?_
  rintro rfl
  exact hne hd

end QueryPipeline
