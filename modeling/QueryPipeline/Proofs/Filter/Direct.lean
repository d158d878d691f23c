import QueryPipeline.Filter
import QueryPipeline.Proofs.Numbering

/-!
# Filter compilation without a stack

The filter compiler sees callbacks and keeps its operands on a stack.  `direct` compiles the same
expressions by recursion: every construct compiles its operands from left to right and builds its
own operand from theirs, and no stack is in sight.

## Main definitions

- `FilterCompiler.direct`: the recursive compilation.

## Main statements

- `FilterCompiler.walk_yields_direct`: a traversal does to any compiler what `direct` says, and leaves
  the operands that were there before alone.
- `FilterCompiler.table_of_direct`: the table grows by the leaves, from left to right.
- `FilterCompiler.walk_refines_direct`: both together.
-/

namespace QueryPipeline

namespace FilterCompiler

/-! ## §1 The recursive compilation -/

/-- What a compilation carries from one operand to the next. -/
structure Progress where
  table : PlaceholderTable
  /-- Whether the latest comparison had its column on the right. -/
  lastMirrored : Bool

/-- A junction needs two conditions. -/
def joined (j : Junction) : Operand → Operand → Except CompileError Operand
  | .condition left, .condition right => .ok (.condition (.compound (junction j left right)))
  | left, right => .error (.unsupportedComposition (.notTwoConditions j left.kind right.kind))

/-- A negation needs a condition on one field, and turns its flag over. -/
def negated : Operand → Except CompileError Operand
  | .condition (.field field predicate flag) => .ok (.condition (.field field predicate (!flag)))
  | .condition (.compound _) => .error (.unsupportedComposition .negatedCompound)
  | other => .error (.unsupportedComposition (.negatedOperand other.kind))

/-- A null check needs a column. -/
def nullChecked : Operand → Except CompileError Operand
  | .column field => .ok (.condition (.field field (singleton "$eq" "null") false))
  | other => .error (.unsupportedNullCheck other.kind)

def comparison (idField field : String) (op : CompareOp) (value : String) : Operand :=
  .condition (.field field (predicate idField field op value) false)

/-- A comparison needs a column and a placeholder.  The column comes first, and the operator is
    mirrored if the column was on the right; the flag tells whether it was. -/
def compared (idField : String) (op : CompareOp) :
    Operand → Operand → Except CompileError (Operand × Bool)
  | .column field, .variable value => .ok (comparison idField field op value, false)
  | .column field, .literal value => .ok (comparison idField field op value, false)
  | .variable value, .column field => .ok (comparison idField field op.mirrored value, true)
  | .literal value, .column field => .ok (comparison idField field op.mirrored value, true)
  | left, right => .error (.unsupportedComparison op left.kind right.kind)

/-- An expression compiled to an operand by recursion.  A variable and a constant get the next free
    placeholder of their kind. -/
def direct (clause : FilterClause) (idField : String) :
    Expr → Progress → Except CompileError (Operand × Progress)
  | .column c, p => .ok (.column c.field, p)
  | .variable v, p =>
    .ok (.variable (p.table.sequence.nameOf (.variable v)),
      { p with table := p.table.grow (.variable v) })
  | .constant value type, p =>
    .ok (.literal (p.table.sequence.nameOf (.literal value type)),
      { p with table := p.table.grow (.literal value type) })
  | .and l r, p => do
    let (left, p) ← direct clause idField l p
    let (right, p) ← direct clause idField r p
    return (← joined .and left right, p)
  | .or l r, p => do
    let (left, p) ← direct clause idField l p
    let (right, p) ← direct clause idField r p
    return (← joined .or left right, p)
  | .not e, p => do
    let (operand, p) ← direct clause idField e p
    return (← negated operand, p)
  | .compare op l r, p => do
    let (left, p) ← direct clause idField l p
    let (right, p) ← direct clause idField r p
    let (condition, mirrored) ← compared idField op left right
    return (condition, { p with lastMirrored := mirrored })
  | .isNull e, p =>
    match clause with
    -- refused before the operand is looked at
    | .having => .error (.unsupportedInHaving .isNull)
    | .matching => do
      let (operand, p) ← direct clause idField e p
      return (← nullChecked operand, p)
  | .member _ source, _ => .error (.unsupportedOperation (.inFilter (.member source)))
  | .arithmetic op _ _, _ => .error (.unsupportedOperation (.inFilter (.arithmetic op)))
  | .call f _, _ => .error (.unsupportedFunction (.unknown f))

def junctionExpr : Junction → Expr → Expr → Expr
  | .and => .and
  | .or => .or

section

variable {clause : FilterClause} {idField : String} {l r e : Expr} {p p' : Progress}
  {o : Operand} {err : CompileError}

theorem direct_junction (j : Junction) :
    direct clause idField (junctionExpr j l r) p =
      direct clause idField l p >>= fun (left, p) =>
        direct clause idField r p >>= fun (right, p) =>
          joined j left right >>= fun o => .ok (o, p) := by
  cases j <;> rfl

theorem direct_junction_eq_ok (j : Junction) :
    direct clause idField (junctionExpr j l r) p = .ok (o, p') ↔
      ∃ left p₁ right, direct clause idField l p = .ok (left, p₁) ∧
        direct clause idField r p₁ = .ok (right, p') ∧ joined j left right = .ok o := by
  simp only [direct_junction, Run.bind_eq_ok_iff, Prod.exists]
  constructor
  · rintro ⟨left, p₁, hl, right, p₂, hr, o', hjoined, hp⟩
    cases hp
    exact ⟨left, p₁, right, hl, hr, hjoined⟩
  · rintro ⟨left, p₁, right, hl, hr, hjoined⟩
    exact ⟨left, p₁, hl, right, p', hr, o, hjoined, rfl⟩

theorem direct_not_eq_ok :
    direct clause idField (.not e) p = .ok (o, p') ↔
      ∃ operand, direct clause idField e p = .ok (operand, p') ∧ negated operand = .ok o := by
  simp only [direct, Run.bind_eq_ok_iff, Prod.exists]
  constructor
  · rintro ⟨operand, p₁, he, o', hnegated, hp⟩
    cases hp
    exact ⟨operand, he, hnegated⟩
  · rintro ⟨operand, he, hnegated⟩
    exact ⟨operand, p', he, o, hnegated, rfl⟩

theorem direct_compare_eq_ok {op : CompareOp} :
    direct clause idField (.compare op l r) p = .ok (o, p') ↔
      ∃ left p₁ right p₂ mirrored, direct clause idField l p = .ok (left, p₁) ∧
        direct clause idField r p₁ = .ok (right, p₂) ∧
        compared idField op left right = .ok (o, mirrored) ∧ p' = ⟨p₂.table, mirrored⟩ := by
  simp only [direct, Run.bind_eq_ok_iff, Prod.exists]
  constructor
  · rintro ⟨left, p₁, hl, right, p₂, hr, o', mirrored, hcompared, hp⟩
    cases hp
    exact ⟨left, p₁, right, p₂, mirrored, hl, hr, hcompared, rfl⟩
  · rintro ⟨left, p₁, right, p₂, mirrored, hl, hr, hcompared, rfl⟩
    exact ⟨left, p₁, hl, right, p₂, hr, o, mirrored, hcompared, rfl⟩

theorem direct_isNull_eq_ok :
    direct clause idField (.isNull e) p = .ok (o, p') ↔
      clause = .matching ∧
        ∃ operand, direct clause idField e p = .ok (operand, p') ∧ nullChecked operand = .ok o := by
  cases clause with
  | having =>
    constructor
    · intro h
      cases h
    · rintro ⟨hclause, _⟩
      cases hclause
  | matching =>
    simp only [direct, Run.bind_eq_ok_iff, Prod.exists, true_and]
    constructor
    · rintro ⟨operand, p₁, he, o', hchecked, hp⟩
      cases hp
      exact ⟨operand, he, hchecked⟩
    · rintro ⟨operand, he, hchecked⟩
      exact ⟨operand, p', he, o, hchecked, rfl⟩

end

/-! ## §2 What a step yields -/

/-- What a compiler carries besides its operands. -/
def progress (s : FilterCompiler) : Progress :=
  ⟨s.table, s.lastMirrored⟩

/-- The compiler with other operands, after some progress. -/
def resume (s : FilterCompiler) (stack : OperandStack Operand) (p : Progress) : FilterCompiler :=
  { s with stack, table := p.table, lastMirrored := p.lastMirrored }

/-- A step has a given result: on success it puts one operand on the stack `below`, on failure it
    fails with that error. -/
def Yields (step : Run FilterCompiler Unit) (s : FilterCompiler) (below : OperandStack Operand) :
    Except CompileError (Operand × Progress) → Prop
  | .ok (o, p) => step.exec s = (.ok (), s.resume (below.push o) p)
  | .error err => step.eval s = .error err

variable {s : FilterCompiler} {below below' : OperandStack Operand}
  {first next : Run FilterCompiler Unit} {result : Except CompileError (Operand × Progress)}

/-- A step that changes nothing may stand in front. -/
theorem Yields.skip (hfirst : first.exec s = (.ok (), s)) (hnext : Yields next s below result) :
    Yields (first >>= fun _ => next) s below result := by
  cases result with
  | ok value => exact (Run.exec_bind_ok hfirst).trans hnext
  | error err =>
    unfold Yields Run.eval at hnext ⊢
    rw [Run.exec_bind_ok hfirst]
    exact hnext

/-- A step that yields an operand, and a step that builds on it. -/
theorem Yields.seq (build : Operand → Progress → Except CompileError (Operand × Progress))
    (hfirst : Yields first s below result)
    (hnext : ∀ o p, Yields next (s.resume (below.push o) p) below' (build o p)) :
    Yields (first >>= fun _ => next) s below' (result >>= fun (o, p) => build o p) := by
  cases result with
  | error err => exact Run.eval_bind_error hfirst
  | ok value =>
    obtain ⟨o, p⟩ := value
    -- the second step starts where the first one ended
    have hexec : (first >>= fun _ => next).exec s = next.exec (s.resume (below.push o) p) :=
      Run.exec_bind_ok hfirst
    have hbuild := hnext o p
    change Yields _ _ _ (build o p)
    cases hresult : build o p with
    | ok value =>
      rw [hresult] at hbuild
      exact hexec.trans hbuild
    | error err =>
      rw [hresult] at hbuild
      unfold Yields Run.eval at hbuild ⊢
      rw [hexec]
      exact hbuild

/-- A unary node that is entered without effect. -/
theorem Yields.around (c : Construct) {operand : Run FilterCompiler Unit}
    {build : Operand → Progress → Except CompileError (Operand × Progress)}
    (henter : (enter c).exec s = (.ok (), s))
    (hoperand : Yields operand s s.stack result)
    (hleave : ∀ o p, Yields (leave c) (s.resume (s.stack.push o) p) s.stack (build o p)) :
    Yields (Expr.around visit c operand) s s.stack (result >>= fun (o, p) => build o p) :=
  .skip henter (.seq build hoperand hleave)

/-- A binary node that is entered without effect: its operands stand on the stack in source order
    where it is left. -/
theorem Yields.aroundTwo (c : Construct) {left right : Run FilterCompiler Unit}
    {resultRight : Progress → Except CompileError (Operand × Progress)}
    {build : Operand → Operand → Progress → Except CompileError (Operand × Progress)}
    (henter : (enter c).exec s = (.ok (), s))
    (hleft : Yields left s s.stack result)
    (hright : ∀ o p, Yields right (s.resume (s.stack.push o) p) (s.stack.push o) (resultRight p))
    (hleave : ∀ o o' p,
      Yields (leave c) (s.resume ((s.stack.push o).push o') p) s.stack (build o o' p)) :
    Yields (Expr.aroundTwo visit c left right) s s.stack
      (result >>= fun (o, p) => resultRight p >>= fun (o', p) => build o o' p) := by
  have hsteps : Expr.aroundTwo visit c left right =
      visit (.enter c) >>= fun _ => left >>= fun _ => visit (.between c) >>= fun _ =>
        right >>= fun _ => visit (.leave c) := by
    simp [Expr.aroundTwo, Expr.around]
  rw [hsteps]
  apply Yields.skip henter
  -- the left operand lies below the right one while that is compiled
  apply Yields.seq (fun o p => resultRight p >>= fun (o', p) => build o o' p) hleft
  intro o p
  -- the callback between the operands does nothing
  apply Yields.skip rfl
  apply Yields.seq (build o) (hright o p)
  intro o' p'
  exact hleave o o' p'

/-! ## §3 Leaving a node -/

theorem leave_yields_joined (j : Junction) (o o' : Operand) (p : Progress) :
    Yields (join j) (s.resume ((s.stack.push o).push o') p) s.stack
      (do return (← joined j o o', p)) := by
  cases o <;> cases o' <;> rfl

theorem leave_yields_negated (o : Operand) (p : Progress) :
    Yields negate (s.resume (s.stack.push o) p) s.stack (do return (← negated o, p)) := by
  rcases o with _ | _ | _ | (_ | _) <;> rfl

theorem leave_yields_nullChecked (o : Operand) (p : Progress) :
    Yields checkNull (s.resume (s.stack.push o) p) s.stack (do return (← nullChecked o, p)) := by
  cases o <;> rfl

theorem leave_yields_compared (op : CompareOp) (o o' : Operand) (p : Progress) :
    Yields (compare op) (s.resume ((s.stack.push o).push o') p) s.stack (do
      let (condition, mirrored) ← compared s.idField op o o'
      return (condition, { p with lastMirrored := mirrored })) := by
  cases o <;> cases o' <;> rfl

/-! ## §4 The traversal -/

theorem walk_yields_direct (e : Expr) (s : FilterCompiler) :
    Yields (e.walk visit) s s.stack (direct s.clause s.idField e s.progress) := by
  -- for every stack, since the right operand of a node is compiled on top of the left one
  induction e generalizing s with
  | and l r ihl ihr =>
    unfold Expr.walk direct
    exact .aroundTwo .and rfl (ihl s) (fun o p => ihr (s.resume (s.stack.push o) p))
      (leave_yields_joined .and)
  | or l r ihl ihr =>
    unfold Expr.walk direct
    exact .aroundTwo .or rfl (ihl s) (fun o p => ihr (s.resume (s.stack.push o) p))
      (leave_yields_joined .or)
  | not e ih =>
    unfold Expr.walk direct
    exact .around .not rfl (ih s) leave_yields_negated
  | compare op l r ihl ihr =>
    unfold Expr.walk direct
    exact .aroundTwo (.compare op) rfl (ihl s) (fun o p => ihr (s.resume (s.stack.push o) p))
      (leave_yields_compared op)
  | isNull e ih =>
    unfold Expr.walk direct
    cases hclause : s.clause with
    | having =>
      -- refused on entering, whatever the operand is
      have henter : (enter .isNull).eval s = .error (.unsupportedInHaving .isNull) := by
        simp [enter, Run.eval, Run.exec_bind, hclause]
      exact Run.eval_bind_error henter
    | matching =>
      have henter : (enter .isNull).exec s = (.ok (), s) := by
        simp [enter, Run.exec_bind, hclause]
      have hoperand := ih s
      rw [hclause] at hoperand
      exact .around .isNull henter hoperand leave_yields_nullChecked
  -- these never get to their operands
  | member e source => rfl
  | arithmetic op l r => rfl
  | call f args => rfl
  -- and a leaf is one callback
  | column c => rfl
  | var v => rfl
  | constant value type => rfl

/-! ## §5 The table -/

variable {clause : FilterClause} {idField : String}

/-- The table grows by the leaves of the expression, from left to right. -/
theorem table_of_direct {e : Expr} {p p' : Progress} {o : Operand}
    (h : direct clause idField e p = .ok (o, p')) : p'.table = p.table.extend e.entries := by
  induction e generalizing p p' o with
  | and l r ihl ihr =>
    obtain ⟨left, p₁, right, hl, hr, _⟩ := (direct_junction_eq_ok .and).1 h
    rw [ihr hr, ihl hl, Expr.entries_and, PlaceholderTable.extend_append]
  | or l r ihl ihr =>
    obtain ⟨left, p₁, right, hl, hr, _⟩ := (direct_junction_eq_ok .or).1 h
    rw [ihr hr, ihl hl, Expr.entries_or, PlaceholderTable.extend_append]
  | not e ih =>
    obtain ⟨operand, he, _⟩ := direct_not_eq_ok.1 h
    rw [ih he, Expr.entries_not]
  | compare op l r ihl ihr =>
    obtain ⟨left, p₁, right, p₂, _, hl, hr, _, rfl⟩ := direct_compare_eq_ok.1 h
    rw [ihr hr, ihl hl, Expr.entries_compare, PlaceholderTable.extend_append]
  | isNull e ih =>
    obtain ⟨_, operand, he, _⟩ := direct_isNull_eq_ok.1 h
    rw [ih he, Expr.entries_isNull]
  -- what is refused yields no table
  | member e source => cases h
  | arithmetic op l r => cases h
  | call f args => cases h
  | column c =>
    cases h
    rw [Expr.entries_column, PlaceholderTable.extend_nil]
  | var v =>
    cases h
    rw [Expr.entries_variable]
    rfl
  | constant value type =>
    cases h
    rw [Expr.entries_constant]
    rfl

/-- The finished clause of an operand: only a condition can stand alone. -/
def finished : Operand → Progress → Except CompileError CompiledFragment
  | .condition c, p =>
    .ok
      { fragment := p.table.inline c.render
        placeholders := p.table.remaining
        sequence := p.table.sequence
        mirrored := match c with
          | .field _ _ _ => p.lastMirrored
          | .compound _ => false }
  | other, _ => .error (.unsupportedComposition (.bareRoot other.kind))

/-- A whole clause compiles as the recursion says. -/
theorem compile_start_eq (config : Config) (clause : FilterClause) (sequence : Sequence)
    (e : Expr) :
    (start config clause sequence).compile e =
      direct clause config.idField e ⟨.startingAt sequence, false⟩ >>=
        fun (o, p) => finished o p := by
  have hwalk := walk_yields_direct e (start config clause sequence)
  change Yields _ _ _ (direct clause config.idField e ⟨.startingAt sequence, false⟩) at hwalk
  unfold compile
  cases hdirect : direct clause config.idField e ⟨.startingAt sequence, false⟩ with
  | ok value =>
    obtain ⟨o, p⟩ := value
    rw [hdirect] at hwalk
    have hexec : (e.walk visit).exec (start config clause sequence) =
        (.ok (), (start config clause sequence).resume (({} : OperandStack Operand).push o) p) :=
      hwalk
    rw [hexec]
    cases o <;> rfl
  | error err =>
    rw [hdirect] at hwalk
    have heval : ((e.walk visit).exec (start config clause sequence)).1 = .error err := hwalk
    -- only the outcome is known, not the state that was left
    rcases hexec : (e.walk visit).exec (start config clause sequence) with ⟨outcome, s'⟩
    rw [hexec] at heval
    cases heval
    rfl

end FilterCompiler

end QueryPipeline
