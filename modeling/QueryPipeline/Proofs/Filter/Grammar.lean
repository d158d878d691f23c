import QueryPipeline.Proofs.Filter.Document
import QueryPipeline.Proofs.Placeholder.Clause
import QueryPipeline.Proofs.Refusal

/-!
# The grammar of filter conditions

A filter is a condition: a comparison of a column with a variable or a constant, in either order, a
null check of a column, a negation of a condition on one field, or a junction of two conditions.
In a HAVING clause there are no null checks.

## Main definitions

- `IsFieldCondition`, `IsCondition`: the grammar.

## Main statements

- `FilterCompiler.exists_compilesTo`: a condition compiles, to the text of its document.
- `FilterCompiler.originates_of_direct`: nothing else compiles to a condition.
- `FilterCompiler.onlyRefuses_direct`: what does not compile is refused for what it says, never for
  the state of the compiler.
- `filter_grammar`: the compilers accept exactly their grammars.
-/

namespace QueryPipeline

/-! ## §1 The grammar -/

/-- Operands that are supplied by value. -/
inductive IsValue : Expr → Prop where
  | ofVariable (v : Variable) : IsValue (.variable v)
  | ofConstant (value : Value) (type : AttributeType) : IsValue (.constant value type)

/-- Conditions on one field. -/
inductive IsFieldCondition (clause : FilterClause) : Expr → Prop where
  /-- A comparison with its column on the left. -/
  | columnFirst (op : CompareOp) (c : Column) {value : Expr} (h : IsValue value) :
      IsFieldCondition clause (.compare op (.column c) value)
  /-- A comparison with its column on the right. -/
  | columnLast (op : CompareOp) {value : Expr} (c : Column) (h : IsValue value) :
      IsFieldCondition clause (.compare op value (.column c))
  /-- Null checks are for WHERE clauses only. -/
  | isNull (c : Column) (h : clause = .matching) : IsFieldCondition clause (.isNull (.column c))
  | not {e : Expr} (h : IsFieldCondition clause e) : IsFieldCondition clause (.not e)

/-- Conditions: everything that a filter may be. -/
inductive IsCondition (clause : FilterClause) : Expr → Prop where
  | field {e : Expr} (h : IsFieldCondition clause e) : IsCondition clause e
  | and {l r : Expr} (hl : IsCondition clause l) (hr : IsCondition clause r) :
      IsCondition clause (.and l r)
  | or {l r : Expr} (hl : IsCondition clause l) (hr : IsCondition clause r) :
      IsCondition clause (.or l r)

namespace FilterCompiler

variable {clause : FilterClause} {idField : String} {e : Expr}

/-! ## §2 Conditions compile -/

theorem direct_column (c : Column) (p : Progress) :
    direct clause idField (.column c) p = .ok (.column c.field, p) :=
  rfl

/-- What a value compiles to: a placeholder for its entry. -/
theorem direct_of_isValue (clause : FilterClause) (idField : String) {value : Expr}
    (h : IsValue value) :
    ∃ entry, value.entry? = some entry ∧ value.entries = [entry] ∧ value.columns = [] ∧
      ∀ p, ∃ o, (o = .variable (p.table.sequence.nameOf entry) ∨
          o = .literal (p.table.sequence.nameOf entry)) ∧
        direct clause idField value p = .ok (o, ⟨p.table.extend [entry], p.lastMirrored⟩) := by
  cases h with
  | ofVariable v =>
    exact ⟨.variable v, rfl, Expr.entries_variable v, rfl, fun p => ⟨_, .inl rfl, rfl⟩⟩
  | ofConstant value type =>
    exact ⟨.literal value type, rfl, Expr.entries_constant value type, rfl,
      fun p => ⟨_, .inr rfl, rfl⟩⟩

/-- A condition has the document `d`, and compiles to it with its placeholders. -/
structure CompilesTo (clause : FilterClause) (idField : String) (e : Expr)
    (d : FilterDocument (Option PlaceholderEntry)) : Prop where
  document : e.document? idField = some d
  entries : d.entries = e.entries
  fields : d.fields = e.columns.map Column.field
  operand : ∀ p, ∃ mirrored, direct clause idField e p =
    .ok (.condition ((d.numbered p.table.sequence).condition FilterDocument.nameText),
      ⟨p.table.extend e.entries, mirrored⟩)

/-- The condition of a comparison is its predicate with the placeholder of its value. -/
theorem comparison_eq (idField field : String) (op : CompareOp) (name : String)
    (entry : PlaceholderEntry) :
    comparison idField field op name =
      .condition ((FilterDocument.predicate field false op (field = idField)
        (some (name, entry))).condition FilterDocument.nameText) := by
  simp [comparison, predicate, FilterDocument.condition, FilterDocument.comparisonText,
    FilterDocument.wrapIf, FilterDocument.nameText, CompareOp.document_eq_spelling,
    singleton_eq_spelled]

/-- A comparison with its column on the left compiles to a predicate. -/
theorem compilesTo_columnFirst (op : CompareOp) (c : Column) {value : Expr} (h : IsValue value) :
    ∃ entry, CompilesTo clause idField (.compare op (.column c) value)
      (.predicate c.field false op (c.field = idField) (some entry)) := by
  obtain ⟨entry, hentry, hentries, hcolumns, hdirect⟩ := direct_of_isValue clause idField h
  refine ⟨entry, ?document, ?entries, ?fields, fun p => ⟨false, ?operand⟩⟩
  case document => simp [Expr.document?, hentry]
  case entries => simp [FilterDocument.entries, FilterDocument.values, hentries]
  case fields => simp [FilterDocument.fields, hcolumns]
  case operand =>
    obtain ⟨o, ho, hvalue⟩ := hdirect p
    have hcompared : compared idField op (.column c.field) o =
        .ok (comparison idField c.field op (p.table.sequence.nameOf entry), false) := by
      rcases ho with rfl | rfl <;> rfl
    rw [direct_compare_eq_ok.2 ⟨_, _, _, _, _, direct_column c p, hvalue, hcompared, rfl⟩,
      comparison_eq _ _ _ _ entry]
    simp [hentries, FilterDocument.numbered]

/-- A comparison with its column on the right compiles to the mirrored predicate. -/
theorem compilesTo_columnLast (op : CompareOp) (c : Column) {value : Expr} (h : IsValue value) :
    ∃ entry, CompilesTo clause idField (.compare op value (.column c))
      (.predicate c.field false op.mirrored (c.field = idField) (some entry)) := by
  obtain ⟨entry, hentry, hentries, hcolumns, hdirect⟩ := direct_of_isValue clause idField h
  refine ⟨entry, ?document, ?entries, ?fields, fun p => ⟨true, ?operand⟩⟩
  case document =>
    cases h <;> simp_all [Expr.document?, Expr.entry?]
  case entries => simp [FilterDocument.entries, FilterDocument.values, hentries]
  case fields => simp [FilterDocument.fields, hcolumns]
  case operand =>
    obtain ⟨o, ho, hvalue⟩ := hdirect p
    have hcompared : compared idField op o (.column c.field) =
        .ok (comparison idField c.field op.mirrored (p.table.sequence.nameOf entry), true) := by
      rcases ho with rfl | rfl <;> rfl
    rw [direct_compare_eq_ok.2 ⟨_, _, _, _, _, hvalue, direct_column c _, hcompared, rfl⟩,
      comparison_eq _ _ _ _ entry]
    simp [hentries, FilterDocument.numbered]

/-- A null check compiles to a comparison with null. -/
theorem compilesTo_isNull (c : Column) :
    CompilesTo .matching idField (.isNull (.column c)) (.predicate c.field false .eq false none)
    where
  document := rfl
  entries := by simp [FilterDocument.entries, FilterDocument.values]
  fields := by simp [FilterDocument.fields]
  operand := by
    intro p
    exact ⟨p.lastMirrored, by simp; rfl⟩

theorem CompilesTo.not {e : Expr} {field : String} {negated : Bool} {op : CompareOp}
    {wrapped : Bool} {value : Option PlaceholderEntry}
    (h : CompilesTo clause idField e (.predicate field negated op wrapped value)) :
    CompilesTo clause idField (.not e) (.predicate field (!negated) op wrapped value) where
  document := by simp [Expr.document?, h.document, FilterDocument.negate?]
  entries := by rw [Expr.entries_not, ← h.entries]; rfl
  fields := by rw [Expr.columns_not, ← h.fields]; rfl
  operand := by
    intro p
    obtain ⟨mirrored, hoperand⟩ := h.operand p
    refine ⟨mirrored, ?_⟩
    rw [Expr.entries_not]
    exact direct_not_eq_ok.2 ⟨_, hoperand, rfl⟩

theorem joined_numbered (j : Junction) (s : Sequence)
    (left right : FilterDocument (Option PlaceholderEntry)) :
    joined j (.condition ((left.numbered s).condition FilterDocument.nameText))
        (.condition ((right.numbered (s.advance left.entries)).condition
          FilterDocument.nameText)) =
      .ok (.condition (((FilterDocument.junction j left right).numbered s).condition
        FilterDocument.nameText)) := by
  rw [FilterDocument.numbered, FilterDocument.condition_junction]
  rfl

@[simp] theorem entries_junctionExpr (j : Junction) (l r : Expr) :
    (junctionExpr j l r).entries = l.entries ++ r.entries := by
  cases j <;> simp [junctionExpr]

@[simp] theorem columns_junctionExpr (j : Junction) (l r : Expr) :
    (junctionExpr j l r).columns = l.columns ++ r.columns := by
  cases j <;> simp [junctionExpr]

/-- A junction compiles to a junction of the two documents. -/
theorem CompilesTo.junction (j : Junction) {l r : Expr}
    {left right : FilterDocument (Option PlaceholderEntry)}
    (hl : CompilesTo clause idField l left) (hr : CompilesTo clause idField r right) :
    CompilesTo clause idField (junctionExpr j l r) (.junction j left right) where
  document := by cases j <;> simp [junctionExpr, Expr.document?, hl.document, hr.document]
  entries := by
    rw [entries_junctionExpr, ← hl.entries, ← hr.entries]
    exact List.filterMap_append
  fields := by
    rw [columns_junctionExpr, List.map_append, ← hl.fields, ← hr.fields]
    rfl
  operand := by
    intro p
    obtain ⟨_, hleft⟩ := hl.operand p
    obtain ⟨mirrored, hright⟩ := hr.operand ⟨p.table.extend l.entries, _⟩
    -- the right operand numbers on from where the left one ended
    have hsequence : (p.table.extend l.entries).sequence =
        p.table.sequence.advance left.entries := by
      rw [PlaceholderTable.sequence_extend, hl.entries]
    rw [hsequence] at hright
    refine ⟨mirrored, ?_⟩
    rw [entries_junctionExpr, PlaceholderTable.extend_append, direct_junction_eq_ok]
    exact ⟨_, _, _, hleft, hright, joined_numbered j p.table.sequence left right⟩

/-- A condition on one field compiles to a predicate. -/
theorem exists_compilesTo_predicate (h : IsFieldCondition clause e) :
    ∃ field negated op wrapped value,
      CompilesTo clause idField e (.predicate field negated op wrapped value) := by
  induction h with
  | columnFirst op c hvalue =>
    obtain ⟨entry, hc⟩ := compilesTo_columnFirst op c hvalue
    exact ⟨_, _, _, _, _, hc⟩
  | columnLast op c hvalue =>
    obtain ⟨entry, hc⟩ := compilesTo_columnLast op c hvalue
    exact ⟨_, _, _, _, _, hc⟩
  | isNull c hclause =>
    subst hclause
    exact ⟨_, _, _, _, _, compilesTo_isNull c⟩
  | not _ ih =>
    obtain ⟨field, negated, op, wrapped, value, hc⟩ := ih
    exact ⟨_, _, _, _, _, hc.not⟩

/-- The operand of a condition on one field can still be negated. -/
theorem exists_direct_eq_field (h : IsFieldCondition clause e) (idField : String) (p : Progress) :
    ∃ field predicate negated p',
      direct clause idField e p = .ok (.condition (.field field predicate negated), p') := by
  obtain ⟨field, negated, op, wrapped, value, hc⟩ :=
    @exists_compilesTo_predicate clause idField e h
  obtain ⟨mirrored, hoperand⟩ := hc.operand p
  exact ⟨_, _, _, _, hoperand⟩

/-- **Completeness**: every condition compiles, to the text of its document. -/
theorem exists_compilesTo (h : IsCondition clause e) :
    ∃ d, CompilesTo clause idField e d := by
  induction h with
  | field hfield =>
    obtain ⟨field, negated, op, wrapped, value, hc⟩ := exists_compilesTo_predicate hfield
    exact ⟨_, hc⟩
  | and _ _ ihl ihr =>
    obtain ⟨left, hl⟩ := ihl
    obtain ⟨right, hr⟩ := ihr
    exact ⟨_, hl.junction .and hr⟩
  | or _ _ ihl ihr =>
    obtain ⟨left, hl⟩ := ihl
    obtain ⟨right, hr⟩ := ihr
    exact ⟨_, hl.junction .or hr⟩

/-! ## §3 Nothing else compiles -/

/-- What an expression must be to compile to an operand. -/
def Originates (clause : FilterClause) (e : Expr) : Operand → Prop
  | .column _ => ∃ c, e = .column c
  | .variable _ => IsValue e
  | .literal _ => IsValue e
  | .condition (.field _ _ _) => IsFieldCondition clause e
  | .condition (.compound _) => IsCondition clause e

theorem Originates.isCondition {c : Condition} (h : Originates clause e (.condition c)) :
    IsCondition clause e := by
  cases c with
  | field field predicate negated => exact .field h
  | compound text => exact h

theorem joined_eq_ok {j : Junction} {left right o : Operand} (h : joined j left right = .ok o) :
    ∃ a b, left = .condition a ∧ right = .condition b ∧
      o = .condition (.compound (junction j a b)) := by
  unfold joined at h
  split at h
  · cases h
    exact ⟨_, _, rfl, rfl, rfl⟩
  · cases h

theorem negated_eq_ok {operand o : Operand} (h : negated operand = .ok o) :
    ∃ field predicate flag, operand = .condition (.field field predicate flag) ∧
      o = .condition (.field field predicate (!flag)) := by
  unfold negated at h
  split at h
  · cases h
    exact ⟨_, _, _, rfl, rfl⟩
  · cases h
  · cases h

theorem nullChecked_eq_ok {operand o : Operand} (h : nullChecked operand = .ok o) :
    ∃ field, operand = .column field ∧
      o = .condition (.field field (singleton "$eq" "null") false) := by
  unfold nullChecked at h
  split at h
  · cases h
    exact ⟨_, rfl, rfl⟩
  · cases h

/-- **Soundness**: an operand tells what its expression was. -/
theorem originates_of_direct {p p' : Progress} {o : Operand}
    (h : direct clause idField e p = .ok (o, p')) : Originates clause e o := by
  induction e generalizing p p' o with
  | and l r ihl ihr =>
    obtain ⟨left, p₁, right, hl, hr, hjoined⟩ := (direct_junction_eq_ok .and).1 h
    obtain ⟨a, b, rfl, rfl, rfl⟩ := joined_eq_ok hjoined
    exact IsCondition.and (ihl hl).isCondition (ihr hr).isCondition
  | or l r ihl ihr =>
    obtain ⟨left, p₁, right, hl, hr, hjoined⟩ := (direct_junction_eq_ok .or).1 h
    obtain ⟨a, b, rfl, rfl, rfl⟩ := joined_eq_ok hjoined
    exact IsCondition.or (ihl hl).isCondition (ihr hr).isCondition
  | not e ih =>
    obtain ⟨operand, he, hnegated⟩ := direct_not_eq_ok.1 h
    obtain ⟨field, predicate, flag, rfl, rfl⟩ := negated_eq_ok hnegated
    exact IsFieldCondition.not (ih he)
  | compare op l r ihl ihr =>
    obtain ⟨left, p₁, right, p₂, _, hl, hr, hcompared, _⟩ := direct_compare_eq_ok.1 h
    have hleft := ihl hl
    have hright := ihr hr
    unfold compared at hcompared
    split at hcompared <;> cases hcompared
    -- the column was on the left in the first two cases, on the right in the last two
    · obtain ⟨c, rfl⟩ := hleft
      exact IsFieldCondition.columnFirst op c hright
    · obtain ⟨c, rfl⟩ := hleft
      exact IsFieldCondition.columnFirst op c hright
    · obtain ⟨c, rfl⟩ := hright
      exact IsFieldCondition.columnLast op c hleft
    · obtain ⟨c, rfl⟩ := hright
      exact IsFieldCondition.columnLast op c hleft
  | isNull e ih =>
    obtain ⟨hclause, operand, he, hchecked⟩ := direct_isNull_eq_ok.1 h
    obtain ⟨field, rfl, rfl⟩ := nullChecked_eq_ok hchecked
    obtain ⟨c, rfl⟩ := ih he
    exact IsFieldCondition.isNull c hclause
  | member e source => cases h
  | arithmetic op l r => cases h
  | call f args => cases h
  | column c =>
    cases h
    exact ⟨c, rfl⟩
  | var v =>
    cases h
    exact .ofVariable v
  | constant value type =>
    cases h
    exact .ofConstant value type

/-! ## §4 Refusals -/

theorem onlyRefuses_joined (j : Junction) (left right : Operand) :
    OnlyRefuses (joined j left right) := by
  intro err h
  unfold joined at h
  split at h <;> cases h
  rfl

theorem onlyRefuses_negated (operand : Operand) : OnlyRefuses (negated operand) := by
  intro err h
  unfold negated at h
  split at h <;> cases h <;> rfl

theorem onlyRefuses_nullChecked (operand : Operand) : OnlyRefuses (nullChecked operand) := by
  intro err h
  unfold nullChecked at h
  split at h <;> cases h
  rfl

theorem onlyRefuses_compared (op : CompareOp) (left right : Operand) :
    OnlyRefuses (compared idField op left right) := by
  intro err h
  unfold compared at h
  split at h <;> cases h
  rfl

/-- What does not compile is refused for what it says. -/
theorem onlyRefuses_direct (e : Expr) (p : Progress) :
    OnlyRefuses (direct clause idField e p) := by
  -- every construct is a sequence of parts that only refuse
  induction e generalizing p with
  | and l r ihl ihr =>
    unfold direct
    exact (ihl p).bind fun left => (ihr left.2).bind fun right =>
      (onlyRefuses_joined .and left.1 right.1).bind fun _ => .ok _
  | or l r ihl ihr =>
    unfold direct
    exact (ihl p).bind fun left => (ihr left.2).bind fun right =>
      (onlyRefuses_joined .or left.1 right.1).bind fun _ => .ok _
  | not e ih =>
    unfold direct
    exact (ih p).bind fun operand => (onlyRefuses_negated operand.1).bind fun _ => .ok _
  | compare op l r ihl ihr =>
    unfold direct
    exact (ihl p).bind fun left => (ihr left.2).bind fun right =>
      (onlyRefuses_compared op left.1 right.1).bind fun _ => .ok _
  | isNull e ih =>
    unfold direct
    cases clause with
    | having =>
      intro err h
      cases h
      rfl
    | matching =>
      exact (ih p).bind fun operand => (onlyRefuses_nullChecked operand.1).bind fun _ => .ok _
  -- what is refused on entering has its own error
  | member e source =>
    intro err h
    cases h
    rfl
  | arithmetic op l r =>
    intro err h
    cases h
    rfl
  | call f args =>
    intro err h
    cases h
    rfl
  | column c => exact .ok _
  | var v => exact .ok _
  | constant value type => exact .ok _

theorem onlyRefuses_finished (o : Operand) (p : Progress) : OnlyRefuses (finished o p) := by
  intro err h
  cases o <;> cases h <;> rfl

/-! ## §5 Whole clauses -/

variable {config : Config} {sequence : Sequence} {compiled : CompiledFragment}

/-- What a clause that compiles is compiled to: its document, with the literals written out and the
    variables kept. -/
theorem compile_eq_ok (h : (start config clause sequence).compile e = .ok compiled) :
    ∃ d, CompilesTo clause config.idField e d ∧
      compiled.fragment = ((PlaceholderTable.startingAt sequence).extend e.entries).inline
        ((d.numbered sequence).render FilterDocument.nameText) ∧
      compiled.NumberedFrom sequence e := by
  rw [compile_start_eq] at h
  obtain ⟨⟨o, p⟩, hdirect, hfinished⟩ := Run.bind_eq_ok_iff.1 h
  cases o with
  | condition c =>
    -- only conditions compile to a condition, and these compile to their document
    obtain ⟨d, hd⟩ := exists_compilesTo (originates_of_direct hdirect).isCondition
    obtain ⟨mirrored, hoperand⟩ := hd.operand ⟨.startingAt sequence, false⟩
    rw [hoperand] at hdirect
    cases hdirect
    cases hfinished
    exact ⟨d, hd, by rw [FilterDocument.render_condition]; rfl, rfl,
      PlaceholderTable.sequence_extend _ _⟩
  | _ => cases hfinished

/-- A clause compiles exactly if it is a condition. -/
theorem compile_isOk_iff :
    (∃ compiled, (start config clause sequence).compile e = .ok compiled) ↔
      IsCondition clause e := by
  constructor
  · rintro ⟨compiled, h⟩
    rw [compile_start_eq] at h
    obtain ⟨⟨o, p⟩, hdirect, hfinished⟩ := Run.bind_eq_ok_iff.1 h
    cases o with
    | condition c => exact (originates_of_direct hdirect).isCondition
    | _ => cases hfinished
  · intro h
    obtain ⟨d, hd⟩ := exists_compilesTo h
    obtain ⟨mirrored, hoperand⟩ := hd.operand ⟨.startingAt sequence, false⟩
    rw [compile_start_eq, hoperand]
    exact ⟨_, rfl⟩

theorem onlyRefuses_compile (config : Config) (clause : FilterClause) (sequence : Sequence)
    (e : Expr) : OnlyRefuses ((start config clause sequence).compile e) := by
  rw [compile_start_eq]
  exact (onlyRefuses_direct e _).bind fun operand => onlyRefuses_finished operand.1 operand.2

end FilterCompiler

/-- **The filter compilers accept exactly their grammars**, and never fail for the state of the
    compiler or for a missing value, whatever they are given. -/
theorem filter_grammar (config : Config) (sequence : Sequence) (e : Expr) :
    ((∃ compiled, compileFilter config sequence e = .ok compiled) ↔ IsCondition .matching e) ∧
    ((∃ compiled, compileHaving config sequence e = .ok compiled) ↔ IsCondition .having e) ∧
    (∀ fault, compileFilter config sequence e ≠ .error (.internal fault)) ∧
    (∀ fault, compileHaving config sequence e ≠ .error (.internal fault)) ∧
    (∀ name key, compileFilter config sequence e ≠ .error (.missingBinding name key)) ∧
    (∀ name key, compileHaving config sequence e ≠ .error (.missingBinding name key)) := by
  refine ⟨FilterCompiler.compile_isOk_iff, FilterCompiler.compile_isOk_iff, ?_, ?_, ?_, ?_⟩
  · intro fault h
    exact Bool.false_ne_true (FilterCompiler.onlyRefuses_compile _ _ _ _ _ h)
  · intro fault h
    exact Bool.false_ne_true (FilterCompiler.onlyRefuses_compile _ _ _ _ _ h)
  · intro name key h
    exact Bool.false_ne_true (FilterCompiler.onlyRefuses_compile _ _ _ _ _ h)
  · intro name key h
    exact Bool.false_ne_true (FilterCompiler.onlyRefuses_compile _ _ _ _ _ h)

end QueryPipeline
