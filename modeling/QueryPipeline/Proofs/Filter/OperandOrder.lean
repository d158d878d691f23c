import QueryPipeline.Proofs.Filter.Grammar
import QueryPipeline.Proofs.Rewriting

/-!
# The order of operands in comparisons

`a < 5` and `5 > a` are compiled to the same text.  A comparison of a column with a variable or a
constant can be replaced by its mirror image wherever it stands in a filter, and nothing changes but
the flag that tells whether the latest comparison had its column on the right.  That flag says of a
finished filter whether it is such a comparison itself, perhaps under negations.

## Main definitions

- `Mirrors`: a comparison and its mirror image.
- `ColumnLast`: negations around a comparison with its column on the right.
- `FilterCompiler.Alike`: expressions that compile alike up to the flag.

## Main statements

- `FilterCompiler.congruence_alike`: every node passes agreement on.
- `FilterCompiler.map_unflagged_compile`: mirror images compile alike in every clause.
- `FilterCompiler.mirrored_iff`: what the flag says of a finished clause.
- `compileFilter_ignores_operand_order`: both together.
-/

namespace QueryPipeline

/-! ## §1 Mirror images -/

/-- A comparison of a column with a value, and the comparison that says the same of the exchanged
    operands. -/
inductive Mirrors : Expr → Expr → Prop where
  | columnFirst (op : CompareOp) (c : Column) {value : Expr} (h : IsValue value) :
      Mirrors (.compare op (.column c) value) (.compare op.mirrored value (.column c))
  | columnLast (op : CompareOp) (c : Column) {value : Expr} (h : IsValue value) :
      Mirrors (.compare op value (.column c)) (.compare op.mirrored (.column c) value)

/-- Negations, perhaps none, around a comparison with its column on the right. -/
inductive ColumnLast : Expr → Prop where
  | compare (op : CompareOp) (value : Expr) (c : Column) : ColumnLast (.compare op value (.column c))
  | not {e : Expr} (h : ColumnLast e) : ColumnLast (.not e)

/-- A condition that is a comparison under negations is a condition on one field. -/
theorem ColumnLast.isFieldCondition {clause : FilterClause} {e : Expr} (h : ColumnLast e)
    (hcondition : IsCondition clause e) : IsFieldCondition clause e := by
  cases hcondition with
  | field hfield => exact hfield
  | and _ _ => cases h
  | or _ _ => cases h

/-- What a finished clause is apart from its flag. -/
def CompiledFragment.unflagged (c : CompiledFragment) : String × Placeholders × Sequence :=
  (c.fragment, c.placeholders, c.sequence)

namespace FilterCompiler

variable {clause : FilterClause} {idField : String} {e e' : Expr} {p p' : Progress}

/-! ## §2 Results up to the flag -/

/-- Results that differ at most in the flag of the latest comparison. -/
def SameButFlag (result other : Except CompileError (Operand × Progress)) : Prop :=
  result.map (fun r => (r.1, r.2.table)) = other.map fun r => (r.1, r.2.table)

theorem SameButFlag.cases {result other : Except CompileError (Operand × Progress)}
    (h : SameButFlag result other) :
    (∃ err, result = .error err ∧ other = .error err) ∨
      ∃ o p p', result = .ok (o, p) ∧ other = .ok (o, p') ∧ p.table = p'.table := by
  unfold SameButFlag at h
  cases result with
  | error err =>
    cases other with
    | error err' =>
      cases h
      exact .inl ⟨err, rfl, rfl⟩
    | ok r' => cases h
  | ok r =>
    cases other with
    | error err' => cases h
    | ok r' =>
      obtain ⟨o, p⟩ := r
      obtain ⟨o', p'⟩ := r'
      simp only [Except.map, Except.ok.injEq, Prod.mk.injEq] at h
      obtain ⟨rfl, htable⟩ := h
      exact .inr ⟨o, p, p', rfl, rfl, htable⟩

theorem SameButFlag.bind {result other : Except CompileError (Operand × Progress)}
    {next next' : Operand × Progress → Except CompileError (Operand × Progress)}
    (h : SameButFlag result other)
    (hnext : ∀ o p p', p.table = p'.table → SameButFlag (next (o, p)) (next' (o, p'))) :
    SameButFlag (result >>= next) (other >>= next') := by
  rcases h.cases with ⟨err, rfl, rfl⟩ | ⟨o, p, p', rfl, rfl, htable⟩
  · rfl
  · exact hnext o p p' htable

/-- An operand that is built without a look at the progress. -/
theorem SameButFlag.built (o : Except CompileError Operand) (h : p.table = p'.table) :
    SameButFlag (do return (← o, p)) (do return (← o, p')) := by
  cases o with
  | error err => rfl
  | ok o =>
    show Except.ok (o, p.table) = Except.ok (o, p'.table)
    rw [h]

/-- The flag of a comparison is set anew. -/
theorem SameButFlag.compared (op : CompareOp) (left right : Operand) (h : p.table = p'.table) :
    SameButFlag
      (do
        let (condition, mirrored) ← compared idField op left right
        return (condition, { p with lastMirrored := mirrored }))
      (do
        let (condition, mirrored) ← compared idField op left right
        return (condition, { p' with lastMirrored := mirrored })) := by
  rw [h]
  rfl

/-! ## §3 Expressions that compile alike -/

/-- Expressions that compile to the same operand and the same table, or fail with the same error,
    whatever the flag was before. -/
def Alike (clause : FilterClause) (idField : String) (e e' : Expr) : Prop :=
  ∀ p p', p.table = p'.table →
    SameButFlag (direct clause idField e p) (direct clause idField e' p')

namespace Alike

variable {l l' r r' : Expr}

theorem junction (j : Junction) (hl : Alike clause idField l l') (hr : Alike clause idField r r') :
    Alike clause idField (junctionExpr j l r) (junctionExpr j l' r') := by
  intro p p' htable
  rw [direct_junction, direct_junction]
  refine (hl p p' htable).bind fun left p₁ p₁' h₁ => ?_
  exact (hr p₁ p₁' h₁).bind fun right p₂ p₂' h₂ => .built (joined j left right) h₂

theorem not (h : Alike clause idField e e') : Alike clause idField (.not e) (.not e') := by
  intro p p' htable
  unfold direct
  exact (h p p' htable).bind fun operand p₁ p₁' h₁ => .built (negated operand) h₁

theorem compare (op : CompareOp) (hl : Alike clause idField l l') (hr : Alike clause idField r r') :
    Alike clause idField (.compare op l r) (.compare op l' r') := by
  intro p p' htable
  unfold direct
  refine (hl p p' htable).bind fun left p₁ p₁' h₁ => ?_
  exact (hr p₁ p₁' h₁).bind fun right p₂ p₂' h₂ => .compared op left right h₂

theorem isNull (h : Alike clause idField e e') : Alike clause idField (.isNull e) (.isNull e') := by
  intro p p' htable
  unfold direct
  cases clause with
  | having => rfl
  | matching => exact (h p p' htable).bind fun operand p₁ p₁' h₁ => .built (nullChecked operand) h₁

/-- The flag that was there before has no influence. -/
theorem refl (e : Expr) : Alike clause idField e e := by
  induction e with
  | and l r ihl ihr => exact junction .and ihl ihr
  | or l r ihl ihr => exact junction .or ihl ihr
  | not e ih => exact ih.not
  | compare op l r ihl ihr => exact compare op ihl ihr
  | isNull e ih => exact ih.isNull
  -- these are refused before anything is compiled
  | member e source => exact fun _ _ _ => rfl
  | arithmetic op l r => exact fun _ _ _ => rfl
  | call f args => exact fun _ _ _ => rfl
  -- and a leaf only looks at the table
  | column c => exact fun _ _ htable => SameButFlag.built (.ok (.column c.field)) htable
  | var v =>
    intro p p' htable
    unfold direct
    rw [htable]
    rfl
  | constant value type =>
    intro p p' htable
    unfold direct
    rw [htable]
    rfl

theorem trans {e'' : Expr} (h : Alike clause idField e e') (h' : Alike clause idField e' e'') :
    Alike clause idField e e'' :=
  fun p p' htable => (h p p rfl).trans (h' p p' htable)

end Alike

/-- **Every node passes agreement on** from its operands. -/
theorem congruence_alike : Expr.Congruence (Alike clause idField) where
  refl := Alike.refl
  trans := Alike.trans
  and := Alike.junction .and
  or := Alike.junction .or
  not := Alike.not
  compare op := Alike.compare op
  isNull := Alike.isNull
  -- what is refused on entering is refused whatever its operands are
  member _ _ _ _ := fun _ _ _ => rfl
  arithmetic _ _ _ _ _ _ _ := fun _ _ _ => rfl
  argument _ _ _ _ _ _ := fun _ _ _ => rfl

/-- Conditions with the same document compile alike. -/
theorem alike_of_compilesTo {d : FilterDocument (Option PlaceholderEntry)}
    (h : CompilesTo clause idField e d) (h' : CompilesTo clause idField e' d) :
    Alike clause idField e e' := by
  intro p p' htable
  obtain ⟨_, hoperand⟩ := h.operand p
  obtain ⟨_, hoperand'⟩ := h'.operand p'
  -- the document decides about the entries of the table as well
  rw [hoperand, hoperand', htable, ← h.entries, ← h'.entries]
  rfl

/-- A comparison and its mirror image have the same document. -/
theorem exists_compilesTo_mirrored (op : CompareOp) (c : Column) {value : Expr} (h : IsValue value) :
    ∃ d, CompilesTo clause idField (.compare op (.column c) value) d ∧
      CompilesTo clause idField (.compare op.mirrored value (.column c)) d := by
  obtain ⟨entry, hfirst⟩ := @compilesTo_columnFirst clause idField op c value h
  obtain ⟨entry', hlast⟩ := @compilesTo_columnLast clause idField op.mirrored c value h
  -- both times the entry is that of the value
  have hfirstEntry : [entry] = value.entries := hfirst.entries.trans (by simp)
  have hlastEntry : [entry'] = value.entries := hlast.entries.trans (by simp)
  cases hfirstEntry.trans hlastEntry.symm
  rw [CompareOp.mirrored_mirrored] at hlast
  exact ⟨_, hfirst, hlast⟩

/-- A comparison compiles like its mirror image. -/
theorem alike_of_mirrors (h : Mirrors e e') : Alike clause idField e e' := by
  cases h with
  | columnFirst op c hvalue =>
    obtain ⟨d, hfirst, hlast⟩ := @exists_compilesTo_mirrored clause idField op c _ hvalue
    exact alike_of_compilesTo hfirst hlast
  | columnLast op c hvalue =>
    obtain ⟨d, hfirst, hlast⟩ := @exists_compilesTo_mirrored clause idField op.mirrored c _ hvalue
    rw [CompareOp.mirrored_mirrored] at hlast
    exact alike_of_compilesTo hlast hfirst

/-! ## §4 The flag -/

variable {o : Operand}

/-- The flag of a condition on one field tells whether its column was on the right. -/
theorem lastMirrored_iff (h : IsFieldCondition clause e) (hp : p.lastMirrored = false)
    (hdirect : direct clause idField e p = .ok (o, p')) :
    p'.lastMirrored = true ↔ ColumnLast e := by
  induction h generalizing o p' with
  | @columnFirst op c value hvalue =>
    obtain ⟨left, p₁, right, p₂, mirrored, hl, _, hcompared, rfl⟩ := direct_compare_eq_ok.1 hdirect
    cases hl
    have hmirrored : mirrored = false := by
      cases right <;> cases hcompared <;> rfl
    refine iff_of_false (by simp [hmirrored]) ?_
    -- a value is no column
    intro hlast
    cases hlast
    cases hvalue
  | @columnLast op value c hvalue =>
    obtain ⟨left, p₁, right, p₂, mirrored, _, hr, hcompared, rfl⟩ := direct_compare_eq_ok.1 hdirect
    cases hr
    have hmirrored : mirrored = true := by
      cases left <;> cases hcompared <;> rfl
    exact iff_of_true hmirrored (.compare op value c)
  | isNull c hclause =>
    -- a null check is no comparison, so the flag is still the one from the start
    obtain ⟨_, operand, hcolumn, _⟩ := direct_isNull_eq_ok.1 hdirect
    cases hcolumn
    refine iff_of_false (by simp [hp]) ?_
    intro hlast
    cases hlast
  | not _ ih =>
    obtain ⟨operand, he, _⟩ := direct_not_eq_ok.1 hdirect
    rw [ih he]
    constructor
    · exact ColumnLast.not
    · intro hlast
      cases hlast
      assumption

/-! ## §5 Whole clauses -/

variable {config : Config} {sequence : Sequence} {compiled : CompiledFragment}

theorem map_unflagged_finished (o : Operand) (h : p.table = p'.table) :
    (finished o p).map CompiledFragment.unflagged = (finished o p').map CompiledFragment.unflagged := by
  cases o with
  | condition c =>
    show Except.ok (p.table.inline c.render, p.table.remaining, p.table.sequence) =
      Except.ok (p'.table.inline c.render, p'.table.remaining, p'.table.sequence)
    rw [h]
  | _ => rfl

/-- **Expressions that compile alike** give the same clause up to its flag, or fail alike. -/
theorem map_unflagged_compile (h : Alike clause config.idField e e') (sequence : Sequence) :
    ((start config clause sequence).compile e).map CompiledFragment.unflagged =
      ((start config clause sequence).compile e').map CompiledFragment.unflagged := by
  have hsame := h ⟨.startingAt sequence, false⟩ ⟨.startingAt sequence, false⟩ rfl
  rw [compile_start_eq, compile_start_eq]
  rcases hsame.cases with ⟨err, hdirect, hdirect'⟩ | ⟨o, p, p', hdirect, hdirect', htable⟩
  · rw [hdirect, hdirect']
  · rw [hdirect, hdirect']
    exact map_unflagged_finished o htable

/-- **The flag of a finished clause** tells whether it is a comparison with its column on the right,
    perhaps under negations. -/
theorem mirrored_iff (h : (start config clause sequence).compile e = .ok compiled) :
    compiled.mirrored = true ↔ ColumnLast e := by
  rw [compile_start_eq] at h
  obtain ⟨⟨o, p⟩, hdirect, hfinished⟩ := Run.bind_eq_ok_iff.1 h
  have horiginates := originates_of_direct hdirect
  cases o with
  | condition c =>
    cases c with
    | field field predicate negated =>
      cases hfinished
      exact lastMirrored_iff horiginates rfl hdirect
    | compound text =>
      cases hfinished
      -- a junction has no sides of its own
      refine iff_of_false Bool.false_ne_true ?_
      intro hlast
      obtain ⟨_, _, _, _, hfield⟩ := exists_direct_eq_field (hlast.isFieldCondition horiginates)
        config.idField ⟨.startingAt sequence, false⟩
      rw [hdirect] at hfield
      cases hfield
  | _ => cases hfinished

end FilterCompiler

/-- **The order of operands never changes a compiled filter.**  If any comparisons of a column with a
    variable or a constant are replaced by their mirror images, wherever they stand, the filter fails
    with the same error as before, or has the same text, the same placeholders and the same next
    numbers.  And of a filter that compiles the flag says whether it is a comparison with its column
    on the right, under any number of negations. -/
theorem compileFilter_ignores_operand_order {e e' : Expr} (h : e.Rewrites Mirrors e')
    (config : Config) (sequence : Sequence) :
    (compileFilter config sequence e).map CompiledFragment.unflagged =
        (compileFilter config sequence e').map CompiledFragment.unflagged ∧
      ∀ compiled, compileFilter config sequence e = .ok compiled →
        (compiled.mirrored = true ↔ ColumnLast e) := by
  constructor
  · apply FilterCompiler.map_unflagged_compile
    exact FilterCompiler.congruence_alike.of_rewrites (fun _ _ => FilterCompiler.alike_of_mirrors) h
  · intro compiled hcompiled
    exact FilterCompiler.mirrored_iff hcompiled

/-- Two comparisons of which only the second has its column on the left. -/
def orderSample : Expr :=
  .or
    (.not (.compare .lt (.variable { field := "low", type := .int })
      (.column { field := "age", type := .int })))
    (.compare .ge (.column { field := "size", type := .int }) (.constant (.int 5) .int))

/-- The same with both comparisons the other way round. -/
def orderSampleMirrored : Expr :=
  .or
    (.not (.compare .gt (.column { field := "age", type := .int })
      (.variable { field := "low", type := .int })))
    (.compare .le (.constant (.int 5) .int) (.column { field := "size", type := .int }))

theorem compileFilter_ignores_operand_order_bothSides :
    orderSample.Rewrites Mirrors orderSampleMirrored ∧
      (compileFilter {} ⟨3, 1⟩ orderSample).map CompiledFragment.unflagged =
        (compileFilter {} ⟨3, 1⟩ orderSampleMirrored).map CompiledFragment.unflagged ∧
      ∃ compiled, compileFilter {} ⟨3, 1⟩ orderSample = .ok compiled ∧ compiled.mirrored = false := by
  -- one comparison after the other
  have hfirst : Expr.RewritesOnce Mirrors orderSample
      (Expr.Frame.fill (.orLeft _) (Expr.Frame.fill .not _)) :=
    .inside (.orLeft _) (.inside .not (.here (.columnLast .lt _ (.ofVariable _))))
  have hsecond : Expr.RewritesOnce Mirrors _ orderSampleMirrored :=
    .inside (.orRight _) (.here (.columnFirst .ge _ (.ofConstant _ _)))
  have hrewrites : orderSample.Rewrites Mirrors orderSampleMirrored := .tail (.single hfirst) hsecond
  obtain ⟨hsame, hflag⟩ := compileFilter_ignores_operand_order hrewrites {} ⟨3, 1⟩
  refine ⟨hrewrites, hsame, ?_⟩
  have hcondition : IsCondition .matching orderSample :=
    .or (.field (.not (.columnLast _ _ (.ofVariable _)))) (.field (.columnFirst _ _ (.ofConstant _ _)))
  obtain ⟨compiled, hcompiled⟩ := FilterCompiler.compile_isOk_iff.2 hcondition
  refine ⟨compiled, hcompiled, ?_⟩
  rw [← Bool.not_eq_true, hflag compiled hcompiled]
  intro hlast
  cases hlast

end QueryPipeline
