import QueryPipeline.Proofs.Filter.Pieces

/-!
# Filters with quotes in their columns

The constants of a filter are written out when it is finished.  They are found in the text by the
names of their placeholders, outside quotes, and the fields of the filter stand in the same text as
they are.  A quote in the name of a column turns the quotes around for what stands behind it: the
placeholder of a constant is hidden and stays in the text, or a part of a column name comes to light
that bears the name of a constant and is replaced.

Nobody misses such a constant.  Its placeholder is dropped from the table whether it was found or not,
so resolving the filter knows nothing of it.

## Main definitions

- `FilterDocument.FindsLiterals`: documents whose constants are all found.

## Main statements

- `FilterDocument.replaceNames_of_findsLiterals`, `FilterDocument.findsLiterals_of_replaceNames`: the
  constants that are found are those that are written out.
- `FilterDocument.findsLiterals_of_quoteFree`: constants between columns without quotes are found.
- `compileFilter_writes_found_literals`: the same for filters.
- `literal_lost_behind_quote`: a filter whose constant is lost.
-/

namespace QueryPipeline

namespace FilterDocument

/-! ## §1 Constants that are found -/

/-- Whether a value is a constant, which is written out when the filter is finished. -/
def isLiteral : Option (String × PlaceholderEntry) → Bool
  | some (_, .literal _ _) => true
  | _ => false

/-- What stands for a value while a clause is compiled, if the constants are left out. -/
def frameText : Option (String × PlaceholderEntry) → String
  | some (name, .variable _) => name
  | some (_, .literal _ _) => ""
  | none => "null"

/-- The constants of a document are found: the placeholder of each is visible, and nothing else that
    is visible bears its name. -/
def FindsLiterals (d : FilterDocument (Option (String × PlaceholderEntry))) : Prop :=
  ∀ a ∈ d.values, isLiteral a →
    nameText a ∈ visibleNames (d.render nameText) ∧ nameText a ∉ visibleNames (d.render frameText)

instance (d : FilterDocument (Option (String × PlaceholderEntry))) : Decidable d.FindsLiterals :=
  inferInstanceAs (Decidable (∀ a ∈ d.values, _))

theorem emptied_nameText : Piece.emptied isLiteral nameText = frameText := by
  funext a
  rcases a with _ | ⟨_, _ | _⟩ <;> rfl

variable {sequence : Sequence} {d : FilterDocument (Option PlaceholderEntry)}

/-- The names that are replaced are the placeholders of the constants. -/
theorem literalText?_eq_some_iff {name text : String} :
    ((PlaceholderTable.startingAt sequence).extend d.entries).literalText? name = some text ↔
      ∃ value type, (name, .literal value type) ∈ sequence.named d.entries ∧
        value.renderAs type = text := by
  rw [PlaceholderTable.literalText?, Option.bind_eq_some_iff]
  constructor
  · rintro ⟨entry, hget, htext⟩
    have hnamed := PlaceholderTable.get?_extend_startingAt.1 hget
    rcases entry with v | ⟨value, type⟩
    · cases htext
    · exact ⟨value, type, hnamed, Option.some.inj htext⟩
  · rintro ⟨value, type, hnamed, rfl⟩
    exact ⟨_, PlaceholderTable.get?_extend_startingAt.2 hnamed, rfl⟩

/-- The constants of a numbered document are holes, which finishing is to fill. -/
theorem fills_literals (sequence : Sequence) (d : FilterDocument (Option PlaceholderEntry)) :
    Piece.Fills isLiteral nameText finalText
      ((PlaceholderTable.startingAt sequence).extend d.entries).literalText?
      (d.numbered sequence).pieces := by
  apply fills_pieces
  · intro a hliteral
    rcases a with _ | named
    · cases hliteral
    · exact ⟨named, rfl, rfl⟩
  · intro name entry hnamed hliteral
    rcases entry with v | ⟨value, type⟩
    · cases hliteral
    · exact literalText?_eq_some_iff.2 ⟨value, type, hnamed, rfl⟩
  · intro a hliteral
    rcases a with _ | ⟨_, _ | _⟩
    · rfl
    · rfl
    · cases hliteral

/-- The constants are found exactly if each of them shows, and nothing that shows without them is
    replaced. -/
theorem findsLiterals_iff :
    (d.numbered sequence).FindsLiterals ↔
      (∀ a ∈ (d.numbered sequence).values, isLiteral a →
        nameText a ∈ visibleNames ((d.numbered sequence).render nameText)) ∧
      ∀ name ∈ visibleNames ((d.numbered sequence).render frameText),
        ((PlaceholderTable.startingAt sequence).extend d.entries).literalText? name = none := by
  have hfills := fills_literals sequence d
  constructor
  · intro hfinds
    refine ⟨fun a ha hliteral => (hfinds a ha hliteral).1, ?_⟩
    intro name hshown
    by_contra hreplaced
    obtain ⟨text, htext⟩ := Option.ne_none_iff_exists'.1 hreplaced
    obtain ⟨value, type, hnamed, _⟩ := literalText?_eq_some_iff.1 htext
    -- the name is that of a constant of the document
    rw [← values_numbered] at hnamed
    obtain ⟨a, ha, hname⟩ := List.mem_filterMap.1 hnamed
    cases hname
    exact (hfinds _ ha rfl).2 hshown
  · rintro ⟨hvisible, hdecoys⟩ a ha hliteral
    refine ⟨hvisible a ha hliteral, ?_⟩
    intro hshown
    have hreplaces := hfills.replaces a (by rwa [slots_pieces]) hliteral
    rw [hdecoys _ hshown] at hreplaces
    cases hreplaces

/-- The name of a constant stands for no other kind of value. -/
theorem nameText_ne_frameText {a a' : Option (String × PlaceholderEntry)}
    (ha : a ∈ (d.numbered sequence).values) (ha' : a' ∈ (d.numbered sequence).values)
    (hliteral : isLiteral a) (hother : isLiteral a' = false) : nameText a ≠ frameText a' := by
  rcases a with _ | ⟨name, v | ⟨value, type⟩⟩
  · cases hliteral
  · cases hliteral
  obtain ⟨n, _, hname⟩ := Sequence.exists_number_of_mem_named (mem_named_of_mem_values ha)
  rcases a' with _ | ⟨name', v | ⟨_, _⟩⟩
  · rw [nameText, hname]
    exact (ne_placeholderName (by decide) _ n).symm
  · obtain ⟨m, _, hname'⟩ := Sequence.exists_number_of_mem_named (mem_named_of_mem_values ha')
    intro heq
    rw [nameText, frameText, hname, hname'] at heq
    cases (placeholderName_inj heq).1
  · cases hother

/-- **Constants between columns without quotes are found.** -/
theorem findsLiterals_of_quoteFree (hfields : ∀ field ∈ d.fields, QuoteFree field) :
    (d.numbered sequence).FindsLiterals := by
  rw [← fields_numbered sequence] at hfields
  have hnames : ∀ a ∈ (d.numbered sequence).values, visibleNames (nameText a) = [nameText a] :=
    fun a ha => (isName_nameText ha).visibleNames_eq
  -- left out, a constant shows nothing
  have hframe : ∀ a ∈ (d.numbered sequence).values, Balanced (frameText a) ∧
      visibleNames (frameText a) = if isLiteral a then [] else [frameText a] := by
    intro a ha
    rcases a with _ | ⟨name, v | ⟨value, type⟩⟩
    · exact ⟨(isName_nameText ha).balanced, hnames _ ha⟩
    · exact ⟨(isName_nameText ha).balanced, hnames _ ha⟩
    · exact ⟨rfl, rfl⟩
  intro a ha hliteral
  rw [visibleNames_render hfields fun a ha => (isName_nameText ha).balanced,
    visibleNames_render hfields fun a ha => (hframe a ha).1]
  refine ⟨List.mem_flatMap.2 ⟨a, ha, ?_⟩, ?_⟩
  · rw [hnames a ha]
    exact List.mem_singleton_self _
  · intro hshown
    obtain ⟨a', ha', hshown⟩ := List.mem_flatMap.1 hshown
    rw [(hframe a' ha').2] at hshown
    cases hother : isLiteral a' with
    | true =>
      rw [hother] at hshown
      cases hshown
    | false =>
      rw [hother] at hshown
      exact nameText_ne_frameText ha ha' hliteral hother (List.mem_singleton.1 hshown)

/-- **Constants that are found are written out.** -/
theorem replaceNames_of_findsLiterals (h : (d.numbered sequence).FindsLiterals) :
    replaceNames ((PlaceholderTable.startingAt sequence).extend d.entries).literalText?
      ((d.numbered sequence).render nameText) = (d.numbered sequence).render finalText := by
  rw [findsLiterals_iff, ← slots_pieces, ← textOf_pieces, ← textOf_pieces, ← emptied_nameText] at h
  rw [← textOf_pieces, ← textOf_pieces]
  exact (fills_literals sequence d).replaceNames_eq h.1 h.2

/-- **Constants that are written out have been found**, if none of them looks like a placeholder. -/
theorem findsLiterals_of_replaceNames
    (htext : ∀ value type, PlaceholderEntry.literal value type ∈ d.entries →
      ∀ s, value = .text s → type = .string)
    (h : replaceNames ((PlaceholderTable.startingAt sequence).extend d.entries).literalText?
      ((d.numbered sequence).render nameText) = (d.numbered sequence).render finalText) :
    (d.numbered sequence).FindsLiterals := by
  have hparts : ∀ name text,
      ((PlaceholderTable.startingAt sequence).extend d.entries).literalText? name = some text →
        Parts text name := by
    intro name text hreplace
    obtain ⟨value, type, hnamed, rfl⟩ := literalText?_eq_some_iff.1 hreplace
    obtain ⟨n, _, rfl⟩ := Sequence.exists_number_of_mem_named hnamed
    apply parts_placeholderName
    apply Value.exists_head_renderAs
    exact htext value type (Sequence.mem_of_mem_named hnamed)
  rw [findsLiterals_iff, ← slots_pieces, ← textOf_pieces, ← textOf_pieces, ← emptied_nameText]
  rw [← textOf_pieces, ← textOf_pieces] at h
  exact ((fills_literals sequence d).replaceNames_eq_iff hparts).1 h

end FilterDocument

/-! ## §2 Finished filters -/

/-- **Which constants are written out.**  A finished filter is the text of its document with names for
    its values, in which the names of the constants have been replaced wherever they are visible.

    - If the constants are found, each of them stands in its place, and nothing else has changed.
    - If they are not, the filter is another text than that, as long as text is declared as text: what
      else is written without quotes may look like the placeholder that is still there.
    - Between columns without quotes, constants are found.
    - No constant is missed later, for none has its placeholder in the table. -/
theorem compileFilter_writes_found_literals {config : Config} {sequence : Sequence} {e : Expr}
    {compiled : CompiledFragment} (h : compileFilter config sequence e = .ok compiled) :
    ∃ d, e.document? config.idField = some d ∧
      ((d.numbered sequence).FindsLiterals →
        compiled.fragment = (d.numbered sequence).render FilterDocument.finalText) ∧
      ((∀ value type, PlaceholderEntry.literal value type ∈ e.entries →
          ∀ s, value = .text s → type = .string) →
        compiled.fragment = (d.numbered sequence).render FilterDocument.finalText →
          (d.numbered sequence).FindsLiterals) ∧
      ((∀ c ∈ e.columns, QuoteFree c.field) → (d.numbered sequence).FindsLiterals) ∧
      ∀ name value type, some (name, .literal value type) ∈ (d.numbered sequence).values →
        name ∉ compiled.placeholders.names := by
  obtain ⟨d, hd, hfragment, hnumbered⟩ := FilterCompiler.compile_eq_ok h
  rw [PlaceholderTable.inline_eq, ← hd.entries] at hfragment
  refine ⟨d, hd.document, ?_, ?_, ?_, ?_⟩
  · intro hfinds
    rw [hfragment, FilterDocument.replaceNames_of_findsLiterals hfinds]
  · intro htext hright
    rw [hfragment] at hright
    exact FilterDocument.findsLiterals_of_replaceNames (hd.entries ▸ htext) hright
  · intro hcolumns
    apply FilterDocument.findsLiterals_of_quoteFree
    rw [← FilterDocument.fields_numbered sequence]
    exact hd.quoteFree_fields hcolumns
  · intro name value type hvalue hname
    -- a name that is in the table stands for a variable
    obtain ⟨v, hv⟩ := compiled.placeholders.exists_get?_of_mem_names hname
    obtain ⟨m, _, hvariable⟩ :=
      Sequence.exists_number_of_mem_named (hnumbered.get?_placeholders.1 hv)
    obtain ⟨n, _, hliteral⟩ :=
      Sequence.exists_number_of_mem_named (FilterDocument.mem_named_of_mem_values hvalue)
    cases (placeholderName_inj (hvariable.symm.trans hliteral)).1

/-- A constant behind a column with two quotes. -/
def quotedPair : Expr :=
  .compare .eq (.column { field := "a''b", type := .int }) (.constant (.int 5) .int)

theorem compileFilter_writes_quotedPair :
    ∃ compiled, compileFilter {} {} quotedPair = .ok compiled ∧
      compiled.fragment = "\x7b'a''b': \x7b'$eq': 5\x7d\x7d" := by
  have hcompiles : (compileFilter {} {} quotedPair).isOk = true := by decide +kernel
  obtain ⟨compiled, hcompiled⟩ := Run.exists_eq_ok hcompiles
  obtain ⟨d, hd, hwrites, _⟩ := compileFilter_writes_found_literals hcompiled
  cases hd
  refine ⟨compiled, hcompiled, (hwrites ?_).trans ?_⟩
  · decide +kernel
  · decide +kernel

/-- A constant behind a column with one quote. -/
def quotedColumn : Expr :=
  .compare .eq (.column { field := "o'clock", type := .int }) (.constant (.int 5) .int)

/-- A filter whose constant is lost: its placeholder stays in the text, is not in the table, and
    resolving the filter does not miss it. -/
theorem literal_lost_behind_quote :
    ∃ compiled d, compileFilter {} {} quotedColumn = .ok compiled ∧
      quotedColumn.document? "_id" = some d ∧
      (d.numbered {}).render FilterDocument.finalText = "\x7b'o'clock': \x7b'$eq': 5\x7d\x7d" ∧
      compiled.fragment = "\x7b'o'clock': \x7b'$eq': lit1\x7d\x7d" ∧
      compiled.placeholders.names = [] ∧
      compiled.resolve .empty = .ok "\x7b'o'clock': \x7b'$eq': lit1\x7d\x7d" := by
  have hfinished : (compileFilter {} {} quotedColumn).map
      (fun c => (c.fragment, c.placeholders.names, c.resolve .empty)) =
      .ok ("\x7b'o'clock': \x7b'$eq': lit1\x7d\x7d", [],
        .ok "\x7b'o'clock': \x7b'$eq': lit1\x7d\x7d") := by decide +kernel
  obtain ⟨compiled, hcompiled, hall⟩ := Run.map_eq_ok_iff.1 hfinished
  simp only [Prod.mk.injEq] at hall
  obtain ⟨hfragment, hnames, hresolve⟩ := hall
  exact ⟨compiled, _, hcompiled, rfl, by decide +kernel, hfragment, hnames, hresolve⟩

end QueryPipeline
