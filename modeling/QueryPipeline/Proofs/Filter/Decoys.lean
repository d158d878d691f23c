import QueryPipeline.Proofs.Filter.LateBinding
import QueryPipeline.Proofs.Filter.Pieces

/-!
# Filters with quotes in their constants

A constant with a quote in it turns the quotes around for everything that stands behind it in a
filter.  Placeholders are then hidden, and resolving notices this, because it misses them.  It looks
for their names only, however, and not for where they stand: what the quotes have uncovered, a field
or the text of a constant, may bear the name of a placeholder.  Such a decoy is replaced in the place
of the placeholder, and nobody misses that one any more.

So a resolved filter is right exactly if it has no decoys.

## Main statements

- `FilterCompiler.resolve_eq_render_iff`: a resolved filter is right if it has no decoys.
- `resolve_right_iff_no_decoy`: the same for filters, with the condition under which they resolve.
- `resolve_leaks_placeholder`: a filter whose placeholder is left in the text.
-/

namespace QueryPipeline

/-! ## §1 What comes out of resolving -/

namespace FilterDocument

/-- Whether a value is still to be bound. -/
def isVariable : Option (String × PlaceholderEntry) → Bool
  | some (_, .variable _) => true
  | _ => false

/-- What is written for a numbered value in the end. -/
def slotText (b : Bindings) (a : Option (String × PlaceholderEntry)) : String :=
  boundText b (a.map Prod.snd)

theorem render_boundText (b : Bindings) (sequence : Sequence)
    (d : FilterDocument (Option PlaceholderEntry)) :
    d.render (boundText b) = (d.numbered sequence).render (slotText b) := by
  have hmap := render_map (Option.map Prod.snd) (boundText b) (d.numbered sequence)
  rw [map_snd_numbered] at hmap
  exact hmap

/-- Without values, variables are left empty. -/
theorem emptied_finalText :
    Piece.emptied isVariable finalText = slotText .empty := by
  funext a
  rcases a with _ | ⟨_, _ | _⟩ <;> rfl

end FilterDocument

namespace FilterCompiler

open FilterDocument

variable {config : Config} {clause : FilterClause} {sequence : Sequence} {e : Expr}
  {compiled : CompiledFragment} {d : FilterDocument (Option PlaceholderEntry)} {b : Bindings}
  (h : (start config clause sequence).compile e = .ok compiled)

include h

/-- What is written for a placeholder parts from its name. -/
theorem parts_valueText? {name text : String}
    (htext : (Resolver.fresh compiled.placeholders b).valueText? name = some text) :
    Parts text name := by
  obtain ⟨v, hv, htext⟩ := Option.bind_eq_some_iff.1 htext
  obtain ⟨value, _, rfl⟩ := Option.map_eq_some_iff.1 htext
  obtain ⟨n, _, rfl⟩ :=
    Sequence.exists_number_of_mem_named ((get?_placeholders_of_compile h).1 hv)
  exact parts_placeholderName value.exists_head_render _ n

/-- The variables of a finished filter are holes, which resolving is to fill. -/
theorem fills_variables (hd : CompilesTo clause config.idField e d)
    (hsupplied : compiled.placeholders.Supplied b) :
    Piece.Fills isVariable finalText (slotText b)
      (Resolver.fresh compiled.placeholders b).valueText? (d.numbered sequence).pieces := by
  apply fills_pieces
  · intro a hvariable
    rcases a with _ | ⟨name, v | _⟩
    · cases hvariable
    · exact ⟨_, rfl, rfl⟩
    · cases hvariable
  · intro name entry hnamed hvariable
    rcases entry with v | _
    · have hget := (get?_placeholders_of_compile h).2 (hd.entries ▸ hnamed)
      obtain ⟨value, hvalue⟩ := Option.isSome_iff_exists.1 (hsupplied name v hget)
      rw [Resolver.valueText?, hget]
      simp [slotText, boundText, hvalue]
    · cases hvariable
  · intro a hvariable
    rcases a with _ | ⟨_, _ | _⟩
    · rfl
    · cases hvariable
    · rfl

/-- **A resolved filter is right exactly if it has no decoys.** -/
theorem resolve_eq_render_iff (hd : CompilesTo clause config.idField e d)
    (hfragment : compiled.fragment = (d.numbered sequence).render finalText) {text : String}
    (hresolve : compiled.resolve b = .ok text) :
    text = d.render (boundText b) ↔
      ∀ name ∈ visibleNames (d.render (boundText .empty)), name ∉ compiled.placeholders.names := by
  obtain ⟨hvisible, hsupplied, rfl⟩ := Placeholders.resolve_eq_ok_iff.1 hresolve
  have hfills := fills_variables h hd hsupplied
  rw [hfragment, render_boundText b sequence, render_boundText .empty sequence, ← textOf_pieces,
    ← textOf_pieces, ← textOf_pieces, ← emptied_finalText,
    hfills.replaceNames_eq_iff fun _ _ => parts_valueText? h]
  -- resolving has seen every placeholder somewhere, so only decoys are left to go wrong
  have hshown : ∀ a ∈ (d.numbered sequence).pieces.filterMap Piece.slot?, isVariable a →
      finalText a ∈ visibleNames (Piece.textOf finalText (d.numbered sequence).pieces) := by
    intro a ha hvariable
    rw [slots_pieces] at ha
    rw [textOf_pieces, ← hfragment]
    rcases a with _ | ⟨name, v | _⟩
    · cases hvariable
    · have hget := (get?_placeholders_of_compile h).2 (hd.entries ▸ mem_named_of_mem_values ha)
      exact hvisible name (compiled.placeholders.mem_names_of_get? hget)
    · cases hvariable
  rw [and_iff_right hshown]
  exact forall₂_congr fun name _ => hsupplied.valueText?_eq_none_iff

end FilterCompiler

/-! ## §2 Filters -/

/-- **When a resolved filter is right.**  A filter can be resolved if every variable has a value and
    every placeholder is visible somewhere, whatever quotes its constants hold.  What comes out is
    the document of the expression with all values in their places exactly if nothing else that the
    filter shows bears the name of one of its placeholders. -/
theorem resolve_right_iff_no_decoy {config : Config} {sequence : Sequence} {e : Expr}
    {compiled : CompiledFragment} (h : compileFilter config sequence e = .ok compiled)
    (hcolumns : ∀ c ∈ e.columns, QuoteFree c.field) :
    ∃ d, e.document? config.idField = some d ∧ ∀ b,
      ((∃ text, compiled.resolve b = .ok text) ↔
        (∀ v ∈ e.vars, b.contains v.key) ∧
          ∀ name ∈ compiled.placeholders.names, name ∈ visibleNames compiled.fragment) ∧
      ∀ text, compiled.resolve b = .ok text →
        (text = d.render (FilterDocument.boundText b) ↔
          ∀ name ∈ visibleNames (d.render (FilterDocument.boundText .empty)),
            name ∉ compiled.placeholders.names) := by
  obtain ⟨_, _, _, hnumbered⟩ := FilterCompiler.compile_eq_ok h
  obtain ⟨d, hd, hfragment⟩ := FilterCompiler.fragment_of_compile h hcolumns
  refine ⟨d, hd.document, fun b => ⟨?_, ?_⟩⟩
  · rw [← hnumbered.supplied_iff]
    constructor
    · rintro ⟨text, htext⟩
      obtain ⟨hvisible, hsupplied, _⟩ := Placeholders.resolve_eq_ok_iff.1 htext
      exact ⟨hsupplied, hvisible⟩
    · rintro ⟨hsupplied, hvisible⟩
      exact ⟨_, Placeholders.resolve_eq_ok_iff.2 ⟨hvisible, hsupplied, rfl⟩⟩
  · intro text htext
    exact FilterCompiler.resolve_eq_render_iff h hd hfragment htext

/-- Two constants with a quote each, before a variable and behind a field with the name of its
    placeholder. -/
def quotedTwice : Expr :=
  .and
    (.and
      (.compare .eq (.column { field := "var1", type := .string })
        (.constant (.text "O'Neil") .string))
      (.compare .ne (.column { field := "tag", type := .string })
        (.constant (.text "it's") .string)))
    (.compare .gt (.column { field := "price", type := .int })
      (.variable { field := "low", type := .int }))

theorem resolve_right_quotedTwice :
    ∃ compiled, compileFilter {} {} quotedTwice = .ok compiled ∧
      compiled.resolve (NameTable.empty.insert "low" (.int 57)) =
        .ok ("\x7b'$and': [\x7b'$and': [\x7b'var1': \x7b'$eq': 'O'Neil'\x7d\x7d, " ++
          "\x7b'tag': \x7b'$ne': 'it's'\x7d\x7d]\x7d, \x7b'price': \x7b'$gt': 57\x7d\x7d]\x7d") := by
  have hshown : (compileFilter {} {} quotedTwice).map
      (fun c => (c.placeholders.names, visibleNames c.fragment)) =
      .ok (["var1"], ["Neil", "tag", "ne", "it", "var1"]) := by decide +kernel
  obtain ⟨compiled, hcompiled, hboth⟩ := Run.map_eq_ok_iff.1 hshown
  obtain ⟨hnames, hvisible⟩ := Prod.mk.inj hboth
  obtain ⟨d, hd, hresolve⟩ := resolve_right_iff_no_decoy hcompiled (by decide)
  obtain ⟨hok, hright⟩ := hresolve (NameTable.empty.insert "low" (.int 57))
  obtain ⟨text, htext⟩ := hok.2 ⟨by decide, by rw [hnames, hvisible]; decide⟩
  cases hd
  have hdecoys := (hright text htext).2 (by rw [hnames]; decide +kernel)
  refine ⟨compiled, hcompiled, ?_⟩
  rw [htext, hdecoys]
  decide

/-- A constant with a quote before a variable and a field with the name of its placeholder. -/
def quotedOnce : Expr :=
  .and
    (.compare .eq (.column { field := "name", type := .string })
      (.constant (.text "O'Neil") .string))
    (.compare .gt (.column { field := "var1", type := .int })
      (.variable { field := "price", type := .int }))

/-- A filter without quotes in its columns, with a constant of its own type, that is resolved though
    its placeholder is hidden: the field takes the value, and the placeholder stays in the text. -/
theorem resolve_leaks_placeholder :
    (∀ c ∈ quotedOnce.columns, QuoteFree c.field) ∧
      (∀ value type, PlaceholderEntry.literal value type ∈ quotedOnce.entries →
        value.type? = some type) ∧
      ∃ compiled d text, compileFilter {} {} quotedOnce = .ok compiled ∧
        quotedOnce.document? "_id" = some d ∧
        compiled.resolve (NameTable.empty.insert "price" (.int 57)) = .ok text ∧
        text = "\x7b'$and': [\x7b'name': \x7b'$eq': 'O'Neil'\x7d\x7d, " ++
          "\x7b'57': \x7b'$gt': var1\x7d\x7d]\x7d" ∧
        text ≠ d.render
          (FilterDocument.boundText (NameTable.empty.insert "price" (.int 57))) := by
  have hresolved : (do
      let compiled ← compileFilter {} {} quotedOnce
      compiled.resolve (NameTable.empty.insert "price" (.int 57))) =
      .ok ("\x7b'$and': [\x7b'name': \x7b'$eq': 'O'Neil'\x7d\x7d, " ++
        "\x7b'57': \x7b'$gt': var1\x7d\x7d]\x7d") := by decide +kernel
  obtain ⟨compiled, hcompiled, htext⟩ := Run.bind_eq_ok_iff.1 hresolved
  refine ⟨by decide, ?_, compiled, _, _, hcompiled, rfl, htext, rfl, by decide⟩
  intro value type hentry
  have hliteral : PlaceholderEntry.literal value type = .literal (.text "O'Neil") .string := by
    simpa [quotedOnce] using hentry
  cases hliteral
  rfl

end QueryPipeline
