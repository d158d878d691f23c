import Mathlib.Logic.Function.Iterate
import QueryPipeline.Proofs.Filter.Grammar
import QueryPipeline.Proofs.Rewriting

/-!
# Double negations

A negation turns over a flag of the condition on top, and the flag is written out only when the
condition becomes part of a text.  So two negations in a row leave no trace: they can be left out
wherever they stand in a filter that compiles.  The converse fails, for a junction compiles and its
double negation does not.

## Main definitions

- `Cancels`: two negations in a row left out.
- `FilterCompiler.CompilesInto`: whatever one expression compiles to, the other one does.

## Main statements

- `FilterCompiler.congruence_compilesInto`: every node passes this on.
- `FilterCompiler.direct_iterate_not`: what several negations do to a condition on one field.
- `doubleNegations_cancel`: double negations cancel everywhere.
-/

namespace QueryPipeline

/-- Two negations in a row left out. -/
inductive Cancels : Expr → Expr → Prop where
  | notNot (c : Expr) : Cancels (.not (.not c)) c

namespace FilterCompiler

variable {clause : FilterClause} {idField : String} {e e' l l' r r' : Expr} {p p' : Progress}

/-! ## §1 Negations inside an expression -/

/-- Whatever the first expression compiles to, the second one compiles to as well. -/
def CompilesInto (clause : FilterClause) (idField : String) (e e' : Expr) : Prop :=
  ∀ p o p', direct clause idField e p = .ok (o, p') → direct clause idField e' p = .ok (o, p')

namespace CompilesInto

theorem junction (j : Junction) (hl : CompilesInto clause idField l l')
    (hr : CompilesInto clause idField r r') :
    CompilesInto clause idField (junctionExpr j l r) (junctionExpr j l' r') := by
  intro p o p' h
  obtain ⟨left, p₁, right, hleft, hright, hjoined⟩ := (direct_junction_eq_ok j).1 h
  apply (direct_junction_eq_ok j).2
  exact ⟨left, p₁, right, hl p left p₁ hleft, hr p₁ right p' hright, hjoined⟩

theorem not (h : CompilesInto clause idField e e') :
    CompilesInto clause idField (.not e) (.not e') := by
  intro p o p' hnot
  obtain ⟨operand, hoperand, hnegated⟩ := direct_not_eq_ok.1 hnot
  exact direct_not_eq_ok.2 ⟨operand, h p operand p' hoperand, hnegated⟩

theorem compare (op : CompareOp) (hl : CompilesInto clause idField l l')
    (hr : CompilesInto clause idField r r') :
    CompilesInto clause idField (.compare op l r) (.compare op l' r') := by
  intro p o p' h
  obtain ⟨left, p₁, right, p₂, mirrored, hleft, hright, hcompared, hp'⟩ := direct_compare_eq_ok.1 h
  apply direct_compare_eq_ok.2
  exact ⟨left, p₁, right, p₂, mirrored, hl p left p₁ hleft, hr p₁ right p₂ hright, hcompared, hp'⟩

theorem isNull (h : CompilesInto clause idField e e') :
    CompilesInto clause idField (.isNull e) (.isNull e') := by
  intro p o p' hnull
  obtain ⟨hclause, operand, hoperand, hchecked⟩ := direct_isNull_eq_ok.1 hnull
  exact direct_isNull_eq_ok.2 ⟨hclause, operand, h p operand p' hoperand, hchecked⟩

/-- What does not compile asks nothing of the other expression. -/
theorem of_error {err : CompileError} (h : ∀ p, direct clause idField e p = .error err) :
    CompilesInto clause idField e e' := by
  intro p o p' hok
  rw [h p] at hok
  cases hok

/-- The second negation takes the first one back. -/
theorem of_cancels (h : Cancels e e') : CompilesInto clause idField e e' := by
  intro p o p' hdirect
  cases h with
  | notNot =>
    obtain ⟨outer, houter, hsecond⟩ := direct_not_eq_ok.1 hdirect
    obtain ⟨inner, hinner, hfirst⟩ := direct_not_eq_ok.1 houter
    obtain ⟨field, predicate, flag, rfl, rfl⟩ := negated_eq_ok hfirst
    obtain ⟨_, _, _, hfield, rfl⟩ := negated_eq_ok hsecond
    cases hfield
    rw [Bool.not_not]
    exact hinner

end CompilesInto

/-- **Every node passes on** what its operands compile to. -/
theorem congruence_compilesInto : Expr.Congruence (CompilesInto clause idField) where
  refl _ := fun _ _ _ h => h
  trans hab hbc := fun p o p' h => hbc p o p' (hab p o p' h)
  and := CompilesInto.junction .and
  or := CompilesInto.junction .or
  not := CompilesInto.not
  compare op := CompilesInto.compare op
  isNull := CompilesInto.isNull
  -- the other nodes are refused whatever their operands are
  member _ _ _ _ := .of_error fun _ => rfl
  arithmetic _ _ _ _ _ _ _ := .of_error fun _ => rfl
  argument _ _ _ _ _ _ := .of_error fun _ => rfl

/-! ## §2 Negations in a row -/

theorem flag_iterate (negated : Bool) (k : Nat) :
    (!(if k % 2 = 0 then negated else !negated)) = if (k + 1) % 2 = 0 then negated else !negated := by
  rcases Nat.mod_two_eq_zero_or_one k with hk | hk
  · have hsucc : (k + 1) % 2 = 1 := by omega
    simp [hk, hsucc]
  · have hsucc : (k + 1) % 2 = 0 := by omega
    simp [hk, hsucc]

/-- Each negation of a condition on one field turns its flag over. -/
theorem direct_iterate_not {field predicate : String} {negated : Bool}
    (h : direct clause idField e p = .ok (.condition (.field field predicate negated), p')) (k : Nat) :
    direct clause idField (Expr.not^[k] e) p =
      .ok (.condition (.field field predicate (if k % 2 = 0 then negated else !negated)), p') := by
  induction k with
  | zero => exact h
  | succ k ih =>
    rw [Function.iterate_succ_apply', ← flag_iterate]
    exact direct_not_eq_ok.2 ⟨_, ih, rfl⟩

/-! ## §3 Whole clauses -/

variable {config : Config} {sequence : Sequence} {compiled : CompiledFragment}

theorem compile_of_compilesInto (h : CompilesInto clause config.idField e e')
    (hcompiled : (start config clause sequence).compile e = .ok compiled) :
    (start config clause sequence).compile e' = .ok compiled := by
  rw [compile_start_eq] at hcompiled ⊢
  obtain ⟨⟨o, p⟩, hdirect, hfinished⟩ := Run.bind_eq_ok_iff.1 hcompiled
  exact Run.bind_eq_ok_iff.2 ⟨(o, p), h _ o p hdirect, hfinished⟩

theorem exists_finished_field (field predicate : String) (negated : Bool) (p : Progress) :
    ∃ c : CompiledFragment, finished (.condition (.field field predicate negated)) p = .ok c ∧
      c.fragment = p.table.inline (Condition.field field predicate negated).render :=
  ⟨_, rfl, rfl⟩

/-- A condition on one field compiles to one of two clauses, by the parity of its negations. -/
theorem exists_compile_iterate_not (h : IsFieldCondition clause e) (config : Config)
    (sequence : Sequence) :
    ∃ even odd : CompiledFragment,
      (∀ k, (start config clause sequence).compile (Expr.not^[k] e) =
        .ok (if k % 2 = 0 then even else odd)) ∧
      ∃ (table : PlaceholderTable) (field predicate : String) (negated : Bool),
        even.fragment = table.inline (Condition.field field predicate negated).render ∧
        odd.fragment = table.inline (Condition.field field predicate (!negated)).render := by
  obtain ⟨field, predicate, negated, p, hdirect⟩ :=
    exists_direct_eq_field h config.idField ⟨.startingAt sequence, false⟩
  obtain ⟨even, heven, hevenText⟩ := exists_finished_field field predicate negated p
  obtain ⟨odd, hodd, hoddText⟩ := exists_finished_field field predicate (!negated) p
  refine ⟨even, odd, ?_, p.table, field, predicate, negated, hevenText, hoddText⟩
  intro k
  rw [compile_start_eq, direct_iterate_not hdirect k]
  show finished (.condition (.field field predicate (if k % 2 = 0 then negated else !negated))) p =
    .ok (if k % 2 = 0 then even else odd)
  split
  · exact heven
  · exact hodd

end FilterCompiler

/-- **Double negations cancel everywhere**, in WHERE clauses as in HAVING clauses.  If any number of
    double negations are left out of an expression that compiles, at any depth, the rest compiles to
    the same clause: text, placeholders, next numbers and flag.  And a condition on one field under
    `k` negations compiles, to a clause that only depends on the parity of `k`. -/
theorem doubleNegations_cancel (config : Config) (clause : FilterClause) (sequence : Sequence) :
    (∀ e e' compiled, e.Rewrites Cancels e' →
      (FilterCompiler.start config clause sequence).compile e = .ok compiled →
      (FilterCompiler.start config clause sequence).compile e' = .ok compiled) ∧
    ∀ c, IsFieldCondition clause c →
      ∃ even odd : CompiledFragment,
        (∀ k, (FilterCompiler.start config clause sequence).compile (Expr.not^[k] c) =
          .ok (if k % 2 = 0 then even else odd)) ∧
        ∃ (table : PlaceholderTable) (field predicate : String) (negated : Bool),
          even.fragment = table.inline (Condition.field field predicate negated).render ∧
          odd.fragment = table.inline (Condition.field field predicate (!negated)).render := by
  constructor
  · intro e e' compiled hrewrites hcompiled
    apply FilterCompiler.compile_of_compilesInto _ hcompiled
    exact FilterCompiler.congruence_compilesInto.of_rewrites
      (fun _ _ => FilterCompiler.CompilesInto.of_cancels) hrewrites
  · intro c hc
    exact FilterCompiler.exists_compile_iterate_not hc config sequence

/-- A comparison with its column on the right, under some negations. -/
def negationSample (k : Nat) : Expr :=
  Expr.not^[k] (.compare .lt (.variable { field := "low", type := .int })
    (.column { field := "age", type := .int }))

theorem doubleNegations_cancel_inJunction :
    ∃ compiled even : CompiledFragment,
      (FilterCompiler.start {} .having ⟨2, 1⟩).compile
        (.and (negationSample 3) (negationSample 2)) = .ok compiled ∧
      (FilterCompiler.start {} .having ⟨2, 1⟩).compile
        (.and (negationSample 1) (negationSample 0)) = .ok compiled ∧
      (FilterCompiler.start {} .having ⟨2, 1⟩).compile (negationSample 4) = .ok even ∧
      (FilterCompiler.start {} .having ⟨2, 1⟩).compile (negationSample 0) = .ok even := by
  obtain ⟨hcancel, hparity⟩ := doubleNegations_cancel {} .having ⟨2, 1⟩
  have hfield : IsFieldCondition .having (negationSample 0) := .columnLast _ _ (.ofVariable _)
  have hcondition : IsCondition .having (.and (negationSample 3) (negationSample 2)) :=
    .and (.field (.not (.not (.not hfield)))) (.field (.not (.not hfield)))
  obtain ⟨compiled, hcompiled⟩ :=
    @FilterCompiler.compile_isOk_iff .having _ {} ⟨2, 1⟩ |>.2 hcondition
  obtain ⟨even, _, hiterate, _⟩ := hparity (negationSample 0) hfield
  refine ⟨compiled, even, hcompiled, ?_, hiterate 4, hiterate 0⟩
  -- on the left first, then on the right
  have hleft : Expr.RewritesOnce Cancels (.and (negationSample 3) (negationSample 2))
      (.and (negationSample 1) (negationSample 2)) :=
    .inside (.andLeft (negationSample 2)) (.here (.notNot (negationSample 1)))
  have hright : Expr.RewritesOnce Cancels (.and (negationSample 1) (negationSample 2))
      (.and (negationSample 1) (negationSample 0)) :=
    .inside (.andRight (negationSample 1)) (.here (.notNot (negationSample 0)))
  exact hcancel _ _ compiled (.tail (.single hleft) hright) hcompiled

end QueryPipeline
