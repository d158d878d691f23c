import QueryPipeline.Proofs.Filter.LateBinding

/-!
# The variables that remain in a filter

Three things are made apart from each other while a filter is compiled: the numbers of its
placeholders in the course of the traversal, its text from the leaves upwards, with the sides of
comparisons exchanged, and the table of variables when the constants are written out.  In a finished
filter they fit together: read from left to right, the placeholders outside quotes have consecutive
numbers, and the table says of each which variable of the expression it stands for.

## Main definitions

- `IsVariableName`: names that variables are given.

## Main statements

- `FilterCompiler.filter_isVariableName_fragment`: the variables that a finished filter shows.
- `CompiledFragment.NumberedFrom.get?_placeholders_iff`: the table of a clause, by position.
- `remaining_variables_stand_in_order`: text, table and next numbers fit together.
-/

namespace QueryPipeline

/-! ## §1 Names of variables -/

/-- Names that variables are given: `var` and a number. -/
def IsVariableName (name : String) : Prop :=
  ∃ n : Nat, name = "var" ++ toString n

/-- Only the number behind `var` can be meant. -/
theorem isVariableName_iff {name : String} :
    IsVariableName name ↔
      name = "var" ++ toString (Nat.ofDigitChars 10 (name.toList.drop 3) 0) := by
  constructor
  · rintro ⟨n, rfl⟩
    simp
  · intro h
    exact ⟨_, h⟩

instance (name : String) : Decidable (IsVariableName name) :=
  decidable_of_iff _ isVariableName_iff.symm

/-- Numbers from some number on, as names of variables. -/
theorem map_fst_mapIdx_eq_range' (vs : List Variable) (start : Nat) :
    (vs.mapIdx fun i v => ("var" ++ toString (start + i), v)).map Prod.fst =
      (List.range' start vs.length).map fun n => "var" ++ toString n := by
  apply List.ext_getElem
  · simp
  · intro i _ _
    simp

/-! ## §2 The table by position -/

theorem Sequence.mem_named_variable_iff {s : Sequence} {entries : List PlaceholderEntry}
    {name : String} {v : Variable} :
    (name, .variable v) ∈ s.named entries ↔
      (name, v) ∈ (s.named entries).filterMap namedVariable? := by
  rw [List.mem_filterMap]
  constructor
  · intro h
    exact ⟨_, h, rfl⟩
  · rintro ⟨⟨other, entry⟩, hentry, hvariable⟩
    cases entry <;> cases hvariable
    exact hentry

/-- **The table of a clause, by position**: a name and a number stand for the variable at that
    place of the expression, and nothing else is in the table. -/
theorem CompiledFragment.NumberedFrom.get?_placeholders_iff {c : CompiledFragment} {s : Sequence}
    {e : Expr} (h : c.NumberedFrom s e) {name : String} {v : Variable} :
    c.placeholders.get? name = some v ↔
      ∃ i, e.vars[i]? = some v ∧ name = "var" ++ toString (s.nextVariable + i) := by
  rw [h.get?_placeholders, Sequence.mem_named_variable_iff, Sequence.filterMap_namedVariable?_named,
    List.mem_mapIdx]
  constructor
  · rintro ⟨i, hi, heq⟩
    cases heq
    exact ⟨i, List.getElem?_eq_getElem hi, rfl⟩
  · rintro ⟨i, hv, rfl⟩
    obtain ⟨hi, rfl⟩ := List.getElem?_eq_some_iff.1 hv
    exact ⟨i, hi, rfl⟩

/-! ## §3 Variables in the text -/

namespace FilterCompiler

variable {config : Config} {clause : FilterClause} {sequence : Sequence} {e : Expr}
  {compiled : CompiledFragment} {d : FilterDocument (Option PlaceholderEntry)}

/-- **The variables that a finished filter shows** have consecutive numbers, from left to right. -/
theorem filter_isVariableName_fragment (hd : CompilesTo clause config.idField e d)
    (hinert : e.HasInertConstants)
    (hfragment : compiled.fragment = (d.numbered sequence).render FilterDocument.finalText)
    (hcolumns : ∀ c ∈ e.columns, QuoteFree c.field) :
    (visibleNames compiled.fragment).filter (IsVariableName ·) =
      (List.range' sequence.nextVariable e.vars.length).map fun n => "var" ++ toString n := by
  have hseen : (visibleNames compiled.fragment).filterMap (Option.guard (IsVariableName ·)) =
      (e.vars.mapIdx fun i v =>
        ("var" ++ toString (sequence.nextVariable + i), v)).filterMap fun p => some p.1 := by
    apply filterMap_visibleNames_fragment hd hinert _ _ hfragment hcolumns
    · intro name v hnamed
      obtain ⟨n, _, hn⟩ := Sequence.exists_number_of_mem_named hnamed
      have hname : IsVariableName name := ⟨n, hn⟩
      simp [hname]
    · intro name hother
      have hname : ¬ IsVariableName name := by
        rintro ⟨n, hn⟩
        exact hother (.variable { field := "", type := .object }) n hn
      simp [hname]
  rw [← List.filterMap_eq_filter, hseen, ← map_fst_mapIdx_eq_range', ← List.filterMap_eq_map]
  rfl

end FilterCompiler

/-! ## §4 Finished filters -/

/-- **The variables that remain stand in order.**  A finished filter shows, outside quotes and from
    left to right, one placeholder for each variable of its expression, with consecutive numbers;
    its table has these placeholders and no others, each with the variable at its place; and the next
    numbers are past all variables and constants. -/
theorem remaining_variables_stand_in_order {config : Config} {sequence : Sequence} {e : Expr}
    {compiled : CompiledFragment}
    (hcompiled : compileFilter config sequence e = .ok compiled ∨
      compileHaving config sequence e = .ok compiled)
    (hinert : e.IsInert) :
    (visibleNames compiled.fragment).filter (IsVariableName ·) =
      (List.range' sequence.nextVariable e.vars.length).map (fun n => "var" ++ toString n) ∧
    (∀ name v, compiled.placeholders.get? name = some v ↔
      ∃ i, e.vars[i]? = some v ∧ name = "var" ++ toString (sequence.nextVariable + i)) ∧
    compiled.sequence =
      ⟨sequence.nextVariable + e.vars.length, sequence.nextLiteral + e.constants.length⟩ := by
  obtain ⟨clause, h⟩ : ∃ clause,
      (FilterCompiler.start config clause sequence).compile e = .ok compiled := by
    rcases hcompiled with h | h
    · exact ⟨_, h⟩
    · exact ⟨_, h⟩
  obtain ⟨_, _, _, hnumbered⟩ := FilterCompiler.compile_eq_ok h
  obtain ⟨d, hd, hfragment⟩ := FilterCompiler.fragment_of_compile h hinert.columns
  refine ⟨?_, ?_, ?_⟩
  · exact FilterCompiler.filter_isVariableName_fragment hd hinert.constants hfragment hinert.columns
  · intro name v
    exact hnumbered.get?_placeholders_iff
  · rw [hnumbered.sequence, Sequence.advance_eq]
    rfl

/-- Numbered from two on, a condition whose constant reads like its first placeholder. -/
theorem remaining_variables_stand_in_order_besideQuotedName :
    lateBindingSample.IsInert ∧
      ∃ compiled, compileHaving {} ⟨2, 4⟩ lateBindingSample = .ok compiled ∧
        (visibleNames compiled.fragment).filter (IsVariableName ·) = ["var2", "var3"] ∧
        compiled.placeholders.get? "var2" = some { field := "low", type := .int } ∧
        compiled.placeholders.get? "var3" = some { field := "who", type := .string } ∧
        compiled.sequence = ⟨4, 5⟩ := by
  have hcondition : IsCondition .having lateBindingSample :=
    .or (.field (.columnLast _ _ (.ofVariable _)))
      (.and (.field (.not (.columnFirst _ _ (.ofConstant _ _))))
        (.field (.columnFirst _ _ (.ofVariable _))))
  have hinert : lateBindingSample.IsInert := by decide
  obtain ⟨compiled, hcompiled⟩ := FilterCompiler.compile_isOk_iff.2 hcondition
  obtain ⟨htext, htable, hsequence⟩ :=
    remaining_variables_stand_in_order (.inr hcompiled) hinert
  refine ⟨hinert, compiled, hcompiled, htext.trans (by decide), ?_, ?_, hsequence.trans (by decide)⟩
  · exact (htable _ _).2 ⟨0, by decide, by decide⟩
  · exact (htable _ _).2 ⟨1, by decide, by decide⟩

end QueryPipeline
