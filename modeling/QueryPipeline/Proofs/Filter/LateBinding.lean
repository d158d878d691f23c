import QueryPipeline.Proofs.Filter.Finalization
import QueryPipeline.Proofs.Fragment.Template

/-!
# Late binding of filters

A filter is compiled once, and the values of its variables are supplied later.  The text that comes
out is the one that writing the values into the document of the condition gives, whatever is in the
values.  If values are missing, the leftmost variable without one is reported.

The text of the filter is scanned twice for this: its literals are written out first, the variables
later.  What was written out for a literal is scanned the second time, so constants must be inert.
The values of variables are scanned by neither pass, and may hold quotes and the names of
placeholders.

## Main definitions

- `FilterDocument.boundText`: what is written for a value of a document in the end.

## Main statements

- `FilterCompiler.filterMap_visibleNames_fragment`: what a scan for placeholders sees.
- `FilterCompiler.filterMap_missing?_fragment`: what the second pass misses.
- `FilterCompiler.replaceNames_fragment`: what the second pass writes.
- `FilterCompiler.isTemplate_of_compile`: finished filters are templates.
- `resolve_compileFilter`: late binding agrees with writing the values at once.
-/

namespace QueryPipeline

/-! ## §1 Bound documents -/

namespace FilterDocument

/-- What is written for a value of a document in the end: the supplied value of a variable, a
    constant as its type says, and null for a null check. -/
def boundText (b : Bindings) : Option PlaceholderEntry → String
  | some (.variable v) => (b.get? v.key).elim "" Value.render
  | some (.literal value type) => value.renderAs type
  | none => "null"

end FilterDocument

/-- The error for a variable under a name, if no value is supplied for it. -/
def Bindings.unsupplied? (b : Bindings) : String × Variable → Option CompileError
  | (name, v) => if b.contains v.key then none else some (.missingBinding name v.key)

namespace FilterCompiler

variable {config : Config} {clause : FilterClause} {sequence : Sequence} {e : Expr}
  {compiled : CompiledFragment} {d : FilterDocument (Option PlaceholderEntry)}
  {a : Option (String × PlaceholderEntry)}

/-! ## §2 What stands in a finished filter -/

section

variable (hd : CompilesTo clause config.idField e d) (hinert : e.HasInertConstants)

include hd hinert

/-- For a value there stands a placeholder that was given out for a variable, or else a text without
    placeholders, which is final. -/
theorem finalText_cases (ha : a ∈ (d.numbered sequence).values) :
    (∃ name v, a = some (name, .variable v) ∧ IsName name ∧
      (name, .variable v) ∈ sequence.named e.entries) ∨
    (a.bind Sequence.namedVariable? = none ∧ ShowsNoPlaceholder (FilterDocument.finalText a) ∧
      ∀ b, FilterDocument.boundText b (a.map Prod.snd) = FilterDocument.finalText a) := by
  have hnamed : ∀ {name entry}, some (name, entry) ∈ (d.numbered sequence).values →
      (name, entry) ∈ sequence.named e.entries := by
    intro name entry hvalue
    rw [← hd.entries]
    exact FilterDocument.mem_named_of_mem_values hvalue
  match a with
  | none =>
    exact .inr ⟨rfl, showsNoPlaceholder_of_mem_constantWords (by decide), fun _ => rfl⟩
  | some (name, .variable v) =>
    exact .inl ⟨name, v, rfl, FilterDocument.isName_nameText ha, hnamed ha⟩
  | some (name, .literal value type) =>
    have hconstant := hinert value type (Sequence.mem_of_mem_named (hnamed ha))
    exact .inr ⟨rfl, hconstant.showsNoPlaceholder, fun _ => rfl⟩

theorem balanced_finalText (ha : a ∈ (d.numbered sequence).values) :
    Balanced (FilterDocument.finalText a) := by
  rcases finalText_cases hd hinert ha with ⟨name, v, rfl, hname, _⟩ | ⟨_, hshows, _⟩
  · exact hname.balanced
  · exact hshows.balanced

theorem visibleNames_finished (hcolumns : ∀ c ∈ e.columns, QuoteFree c.field) :
    visibleNames ((d.numbered sequence).render FilterDocument.finalText) =
      (d.numbered sequence).values.flatMap fun a => visibleNames (FilterDocument.finalText a) :=
  FilterDocument.visibleNames_render (hd.quoteFree_fields hcolumns)
    fun _ ha => balanced_finalText hd hinert ha

section

variable {β : Type} {pick : String → Option β} {ofVariable : String × Variable → Option β}
  (hvariable : ∀ name v, (name, .variable v) ∈ sequence.named e.entries →
    pick name = ofVariable (name, v))
  (hother : ∀ name, (∀ entry n, name ≠ placeholderName entry n) → pick name = none)

include hvariable hother

/-- Of one value a scan for placeholders sees its variable, if it is one. -/
theorem filterMap_visibleNames_finalText (ha : a ∈ (d.numbered sequence).values) :
    (visibleNames (FilterDocument.finalText a)).filterMap pick =
      ((a.bind Sequence.namedVariable?).bind ofVariable).toList := by
  rcases finalText_cases hd hinert ha with
    ⟨name, v, rfl, hname, hnamed⟩ | ⟨hnone, hshows, _⟩
  · rw [FilterDocument.finalText, hname.visibleNames_eq, List.filterMap_cons,
      hvariable name v hnamed]
    show _ = (ofVariable (name, v)).toList
    cases ofVariable (name, v) <;> rfl
  · -- what else the text shows is no placeholder
    rw [hnone, Option.bind_none, Option.toList_none, List.filterMap_eq_nil_iff]
    intro name hname
    exact hother name (hshows.ne_placeholder name hname)

/-- **What a scan for placeholders sees** in a finished filter: the variables of the expression, from
    left to right and numbered one after the other. -/
theorem filterMap_visibleNames_fragment
    (hfragment : compiled.fragment = (d.numbered sequence).render FilterDocument.finalText)
    (hcolumns : ∀ c ∈ e.columns, QuoteFree c.field) :
    (visibleNames compiled.fragment).filterMap pick =
      (e.vars.mapIdx fun i v =>
        ("var" ++ toString (sequence.nextVariable + i), v)).filterMap ofVariable := by
  calc (visibleNames compiled.fragment).filterMap pick
      = (d.numbered sequence).values.flatMap fun a =>
          (visibleNames (FilterDocument.finalText a)).filterMap pick := by
        rw [hfragment, visibleNames_finished hd hinert hcolumns, List.filterMap_flatMap]
    _ = (d.numbered sequence).values.flatMap fun a =>
          ((a.bind Sequence.namedVariable?).bind ofVariable).toList := by
        apply List.flatMap_congr
        intro a ha
        exact filterMap_visibleNames_finalText hd hinert hvariable hother ha
    _ = (((d.numbered sequence).values.filterMap id).filterMap
          Sequence.namedVariable?).filterMap ofVariable := by
        rw [List.filterMap_filterMap, List.filterMap_filterMap, List.filterMap_eq_flatMap_toList]
        simp only [id, Option.bind_assoc]
    _ = (e.vars.mapIdx fun i v =>
          ("var" ++ toString (sequence.nextVariable + i), v)).filterMap ofVariable := by
        -- the values of the document are numbered in the order of the expression
        rw [FilterDocument.values_numbered, hd.entries, Sequence.filterMap_namedVariable?_named]
        rfl

end

end

/-- **A placeholder is visible** if everything that stands for a value closes its quotes. -/
theorem mem_visibleNames_of_balanced
    (h : (start config clause sequence).compile e = .ok compiled)
    (hd : CompilesTo clause config.idField e d)
    (hfragment : compiled.fragment = (d.numbered sequence).render FilterDocument.finalText)
    (hcolumns : ∀ c ∈ e.columns, QuoteFree c.field)
    (hbalanced : ∀ a ∈ (d.numbered sequence).values, Balanced (FilterDocument.finalText a))
    {name : String} (hname : name ∈ compiled.placeholders.names) :
    name ∈ visibleNames compiled.fragment := by
  obtain ⟨⟨name, v⟩, hentry, rfl⟩ := List.mem_map.1 hname
  have hnamed := (get?_placeholders_of_compile h).1 (compiled.placeholders.mem_entries_iff.1 hentry)
  rw [← hd.entries, ← FilterDocument.values_numbered] at hnamed
  obtain ⟨a, ha, rfl⟩ := List.mem_filterMap.1 hnamed
  -- it stands in the document by itself, outside quotes
  have hvisible : visibleNames name = [name] := (FilterDocument.isName_nameText ha).visibleNames_eq
  rw [hfragment, FilterDocument.visibleNames_render (hd.quoteFree_fields hcolumns) hbalanced,
    List.mem_flatMap]
  refine ⟨_, ha, ?_⟩
  rw [FilterDocument.finalText, hvisible]
  exact List.mem_singleton_self name

/-- Names of another form are no placeholders of a finished filter. -/
theorem get?_placeholders_eq_none
    (h : (start config clause sequence).compile e = .ok compiled) {name : String}
    (hname : ∀ entry n, name ≠ placeholderName entry n) :
    compiled.placeholders.get? name = none := by
  obtain ⟨_, _, _, hnumbered⟩ := compile_eq_ok h
  exact hnumbered.numbered.get?_eq_none hname

/-! ## §3 The second pass -/

section

variable (h : (start config clause sequence).compile e = .ok compiled)
  (hd : CompilesTo clause config.idField e d) (hinert : e.HasInertConstants) (b : Bindings)

include h hd hinert

theorem replaceNames_finalText (ha : a ∈ (d.numbered sequence).values)
    (hsupplied : ∀ v ∈ e.vars, b.contains v.key) :
    replaceNames (Resolver.fresh compiled.placeholders b).valueText? (FilterDocument.finalText a) =
      FilterDocument.boundText b (a.map Prod.snd) := by
  rcases finalText_cases hd hinert ha with
    ⟨name, v, rfl, hname, hnamed⟩ | ⟨_, hshows, hfinal⟩
  · have hget := (get?_placeholders_of_compile h).2 hnamed
    -- the variable is one of the expression, so it has a value
    have hv : v ∈ e.vars :=
      List.mem_filterMap.2 ⟨.variable v, Sequence.mem_of_mem_named hnamed, rfl⟩
    obtain ⟨value, hvalue⟩ := Option.isSome_iff_exists.1 (hsupplied v hv)
    rw [FilterDocument.finalText, hname.replaceNames_eq, Resolver.valueText?, hget]
    simp [FilterDocument.boundText, hvalue]
  · -- a text without placeholders is already final
    rw [hfinal b]
    apply replaceNames_eq_self
    intro name hname
    rw [Resolver.valueText?, get?_placeholders_eq_none h (hshows.ne_placeholder name hname)]
    rfl

variable (hfragment : compiled.fragment = (d.numbered sequence).render FilterDocument.finalText)
  (hcolumns : ∀ c ∈ e.columns, QuoteFree c.field)

include hfragment hcolumns

/-- **What the second pass misses**: the variables of the expression that have no value, from left
    to right. -/
theorem filterMap_missing?_fragment :
    (visibleNames compiled.fragment).filterMap
        (Resolver.fresh compiled.placeholders b).missing? =
      (e.vars.mapIdx fun i v =>
        ("var" ++ toString (sequence.nextVariable + i), v)).filterMap b.unsupplied? := by
  apply filterMap_visibleNames_fragment hd hinert _ _ hfragment hcolumns
  · intro name v hnamed
    rw [Resolver.missing?, (get?_placeholders_of_compile h).2 hnamed]
    rfl
  · intro name hname
    rw [Resolver.missing?, get?_placeholders_eq_none h hname]
    rfl

/-- **What the second pass writes** is the document with the supplied values. -/
theorem replaceNames_fragment (hsupplied : ∀ v ∈ e.vars, b.contains v.key) :
    replaceNames (Resolver.fresh compiled.placeholders b).valueText? compiled.fragment =
      d.render (FilterDocument.boundText b) := by
  calc replaceNames (Resolver.fresh compiled.placeholders b).valueText? compiled.fragment
      = (d.numbered sequence).render fun a =>
          replaceNames (Resolver.fresh compiled.placeholders b).valueText?
            (FilterDocument.finalText a) := by
        rw [hfragment]
        exact FilterDocument.replaceNames_render _ (hd.quoteFree_fields hcolumns)
          fun a ha => balanced_finalText hd hinert ha
    _ = (d.numbered sequence).render (FilterDocument.boundText b ∘ Option.map Prod.snd) := by
        apply FilterDocument.render_congr
        intro a ha
        exact replaceNames_finalText h hd hinert b ha hsupplied
    _ = d.render (FilterDocument.boundText b) := by
        rw [← FilterDocument.render_map, FilterDocument.map_snd_numbered]

theorem mem_visibleNames_of_mem_names {name : String} (hname : name ∈ compiled.placeholders.names) :
    name ∈ visibleNames compiled.fragment := by
  apply mem_visibleNames_of_balanced h hd hfragment hcolumns _ hname
  intro a ha
  exact balanced_finalText hd hinert ha

/-- What else a finished filter shows is no placeholder. -/
theorem ne_placeholderName_of_mem_visibleNames {name : String}
    (hvisible : name ∈ visibleNames compiled.fragment) (hname : name ∉ compiled.placeholders.names)
    (entry : PlaceholderEntry) (n : Nat) : name ≠ placeholderName entry n := by
  rw [hfragment, visibleNames_finished hd hinert hcolumns, List.mem_flatMap] at hvisible
  obtain ⟨a, ha, hvisible⟩ := hvisible
  rcases finalText_cases hd hinert ha with ⟨name', v, rfl, hisName, hnamed⟩ | ⟨_, hshows, _⟩
  · -- a placeholder of the filter is in its table
    rw [FilterDocument.finalText, hisName.visibleNames_eq, List.mem_singleton] at hvisible
    subst hvisible
    have hget := (get?_placeholders_of_compile h).2 hnamed
    exact absurd (compiled.placeholders.mem_names_of_get? hget) hname
  · exact hshows.ne_placeholder name hvisible entry n

end

/-- **A finished filter is a template** for the document of its expression. -/
theorem isTemplate_of_compile (h : (start config clause sequence).compile e = .ok compiled)
    (hcolumns : ∀ c ∈ e.columns, QuoteFree c.field) (hinert : e.HasInertConstants) :
    ∃ d, CompilesTo clause config.idField e d ∧
      compiled.IsTemplate sequence e fun b => d.render (FilterDocument.boundText b) := by
  obtain ⟨_, _, _, hnumbered⟩ := compile_eq_ok h
  obtain ⟨d, hd, hfragment⟩ := fragment_of_compile h hcolumns
  refine ⟨d, hd, hnumbered, ?_, ?_, ?_, ?_⟩
  · rw [hfragment]
    exact FilterDocument.balanced_render (hd.quoteFree_fields hcolumns)
      fun _ ha => balanced_finalText hd hinert ha
  · intro name hname
    exact mem_visibleNames_of_mem_names h hd hinert hfragment hcolumns hname
  · intro name hvisible hname
    exact ne_placeholderName_of_mem_visibleNames h hd hinert hfragment hcolumns hvisible hname
  · intro b hsupplied
    exact replaceNames_fragment h hd hinert b hfragment hcolumns hsupplied

end FilterCompiler

/-! ## §4 Late binding -/

section

variable {b : Bindings} {vs : List Variable}

theorem filterMap_unsupplied?_eq_nil (h : ∀ v ∈ vs, b.contains v.key)
    (name : Nat → String) :
    (vs.mapIdx fun i v => (name i, v)).filterMap b.unsupplied? = [] := by
  rw [List.filterMap_eq_nil_iff]
  intro p hp
  obtain ⟨i, hi, rfl⟩ := List.mem_mapIdx.1 hp
  exact if_pos (h _ (List.getElem_mem hi))

/-- The leftmost variable without a value. -/
theorem exists_leftmost_unsupplied (h : ∃ v ∈ vs, b.contains v.key = false) :
    ∃ before v after, vs = before ++ v :: after ∧
      (∀ w ∈ before, b.contains w.key) ∧ b.contains v.key = false := by
  obtain ⟨v, hv⟩ : ∃ v, vs.find? (fun v => !b.contains v.key) = some v := by
    rw [← Option.isSome_iff_exists, List.find?_isSome]
    simpa using h
  obtain ⟨hmissing, before, after, hsplit, hbefore⟩ := List.find?_eq_some_iff_append.1 hv
  exact ⟨before, v, after, hsplit, by simpa using hbefore, by simpa using hmissing⟩

end

/-- **Late binding agrees with writing the values at once.**  If every variable of a compiled filter
    has a value, resolving gives the document of the expression with its constants and the supplied
    values written in; otherwise it reports the leftmost variable without a value. -/
theorem resolve_compileFilter {config : Config} {sequence : Sequence} {e : Expr}
    {compiled : CompiledFragment} (hcompiled : compileFilter config sequence e = .ok compiled)
    (hcolumns : ∀ c ∈ e.columns, QuoteFree c.field) (hinert : e.HasInertConstants)
    (b : Bindings) :
    ((∀ v ∈ e.vars, b.contains v.key) →
      ∃ d, e.document? config.idField = some d ∧
        compiled.resolve b = .ok (d.render (FilterDocument.boundText b))) ∧
    ((∃ v ∈ e.vars, b.contains v.key = false) →
      ∃ before v after, e.vars = before ++ v :: after ∧
        (∀ w ∈ before, b.contains w.key) ∧ b.contains v.key = false ∧
        compiled.resolve b = .error
          (.missingBinding ("var" ++ toString (sequence.nextVariable + before.length)) v.key)) := by
  obtain ⟨d, hd, hfragment⟩ := FilterCompiler.fragment_of_compile hcompiled hcolumns
  have hmissing :=
    FilterCompiler.filterMap_missing?_fragment hcompiled hd hinert b hfragment hcolumns
  constructor
  · intro hsupplied
    refine ⟨d, hd.document, ?_⟩
    rw [← FilterCompiler.replaceNames_fragment hcompiled hd hinert b hfragment hcolumns hsupplied]
    apply Placeholders.resolve_of_supplied
    · intro name hname
      exact FilterCompiler.mem_visibleNames_of_mem_names hcompiled hd hinert hfragment hcolumns hname
    · rw [filterMap_unsupplied?_eq_nil hsupplied, List.filterMap_eq_nil_iff] at hmissing
      exact hmissing
  · intro hunsupplied
    obtain ⟨before, v, after, hsplit, hbefore, hv⟩ := exists_leftmost_unsupplied hunsupplied
    refine ⟨before, v, after, hsplit, hbefore, hv, ?_⟩
    apply Placeholders.resolve_of_missing
    -- the first of all errors is the one that is reported
    rw [← List.head?_filterMap, hmissing, hsplit, List.mapIdx_append, List.filterMap_append,
      filterMap_unsupplied?_eq_nil hbefore, List.nil_append, List.mapIdx_cons, List.filterMap_cons]
    simp [Bindings.unsupplied?, hv]

/-- A condition with a constant that is the name of one of its placeholders. -/
def lateBindingSample : Expr :=
  .or
    (.compare .lt (.variable { field := "low", type := .int })
      (.column { field := "age", type := .int }))
    (.and
      (.not (.compare .eq (.column { field := "city", type := .string })
        (.constant (.text "var2") .string)))
      (.compare .eq (.column { field := "_id", type := .string })
        (.variable { field := "who", type := .string })))

theorem resolve_compileFilter_namesInValues :
    ∃ compiled, compileFilter {} {} lateBindingSample = .ok compiled ∧
      compiled.resolve ((NameTable.empty.insert "low" (.int 7)).insert "who" (.text "it's var1")) =
        .ok ("\x7b'$or': [\x7b'age': \x7b'$gt': 7\x7d\x7d, " ++
          "\x7b'$and': [\x7b'city': \x7b'$not': \x7b'$eq': 'var2'\x7d\x7d\x7d, " ++
          "\x7b'_id': \x7b'$eq': \x7b'$oid': 'it's var1'\x7d\x7d\x7d]\x7d]\x7d") ∧
      compiled.resolve (NameTable.empty.insert "low" (.int 7)) =
        .error (.missingBinding "var2" "who") := by
  have hcondition : IsCondition .matching lateBindingSample :=
    .or (.field (.columnLast _ _ (.ofVariable _)))
      (.and (.field (.not (.columnFirst _ _ (.ofConstant _ _))))
        (.field (.columnFirst _ _ (.ofVariable _))))
  have hinert : lateBindingSample.HasInertConstants := by
    intro value type hentry
    have hliteral : PlaceholderEntry.literal value type = .literal (.text "var2") .string := by
      simpa [lateBindingSample] using hentry
    cases hliteral
    exact ⟨by decide, fun _ _ => rfl⟩
  obtain ⟨compiled, hcompiled⟩ := FilterCompiler.compile_isOk_iff.2 hcondition
  refine ⟨compiled, hcompiled, ?_, ?_⟩
  · obtain ⟨d, hd, hresolve⟩ := (resolve_compileFilter hcompiled (by decide) hinert
      ((NameTable.empty.insert "low" (.int 7)).insert "who" (.text "it's var1"))).1 (by decide)
    cases hd
    rw [hresolve]
    decide
  · obtain ⟨before, v, after, hsplit, _, hv, hresolve⟩ := (resolve_compileFilter hcompiled
      (by decide) hinert (NameTable.empty.insert "low" (.int 7))).2 (by decide)
    have hvars : lateBindingSample.vars =
        [{ field := "low", type := .int }, { field := "who", type := .string }] := by
      decide
    rw [hvars] at hsplit
    match before with
    | [] =>
      cases hsplit
      exact absurd hv (by decide)
    | [_] =>
      cases hsplit
      exact hresolve
    | _ :: _ :: _ => simp at hsplit

end QueryPipeline
