import QueryPipeline.Proofs.Filter.Direct
import QueryPipeline.Proofs.Lockstep

/-!
# Two filter compilations side by side

Only entering a null check asks which clause is compiled, and only a finished clause shows what is in
the table.  So a HAVING compiler goes with a WHERE compiler up to the first null check, and expressions
whose constants differ are compiled alike up to the text of those constants.

## Main definitions

- `Expr.subexprs`: an expression and all expressions inside it.
- `PlaceholderTable.LooksLike`: tables that cannot be told apart by what is seen of their entries.
- `Relabeling.Keeps`: other leaves, without a difference that is seen.
- `Relabeling.blank`: leaves without constants, and without the tables and types of columns.

## Main statements

- `FilterCompiler.exec_leave_framed`: leaving a node depends neither on the clause nor on the table.
- `having_is_where_without_nullChecks`: where a HAVING clause and a WHERE clause differ.
- `FilterCompiler.compile_relabel`: what is not seen of the leaves is not seen of the clause.
- `constants_show_in_text_only`: constants show nowhere but in the text of a clause.
-/

namespace QueryPipeline

namespace FilterCompiler

/-! ## §1 What callbacks look at -/

/-- **Leaving a node** depends neither on the clause nor on the table, and changes neither. -/
theorem exec_leave_framed (c : Construct) (s : FilterCompiler) (clause : FilterClause)
    (table : PlaceholderTable) :
    (leave c).exec { s with clause, table } =
      (((leave c).exec s).1, { ((leave c).exec s).2 with clause, table }) := by
  obtain ⟨_, idField, ⟨items⟩, _, lastMirrored⟩ := s
  -- by the operands on top of the stack, which decide what happens
  cases c with
  | and | or | compare op =>
    rcases items with _ | ⟨right, _ | ⟨left, rest⟩⟩
    · rfl
    · rfl
    · cases left <;> cases right <;> rfl
  | not => rcases items with _ | ⟨_ | _ | _ | (_ | _), rest⟩ <;> rfl
  | isNull => rcases items with _ | ⟨_ | _ | _ | _, rest⟩ <;> rfl
  | _ => rfl

theorem exec_leave_keeps (c : Construct) (s : FilterCompiler) :
    ((leave c).exec s).2.clause = s.clause ∧ ((leave c).exec s).2.table = s.table := by
  have h := exec_leave_framed c s s.clause s.table
  exact ⟨congrArg (fun r => r.2.clause) h, congrArg (fun r => r.2.table) h⟩

/-- Entering a node does not depend on the table. -/
theorem exec_enter_framed (c : Construct) (s : FilterCompiler) (table : PlaceholderTable) :
    (enter c).exec { s with table } = (((enter c).exec s).1, { ((enter c).exec s).2 with table }) := by
  cases c with
  | isNull =>
    obtain ⟨clause, _, _, _, _⟩ := s
    cases clause <;> rfl
  | _ => rfl

/-- A clause is finished from the state that its traversal leaves, unless the traversal fails. -/
theorem compile_eq (s : FilterCompiler) (e : Expr) :
    s.compile e = ((e.walk visit).exec s).1 >>= fun _ => ((e.walk visit).exec s).2.finish := by
  unfold compile
  rcases (e.walk visit).exec s with ⟨outcome, s'⟩
  cases outcome <;> rfl

theorem finish_eq (s : FilterCompiler) :
    s.finish = s.stack.root.mapError .internal >>= fun o => finished o s.progress := by
  obtain ⟨_, _, ⟨items⟩, _, _⟩ := s
  rcases items with _ | ⟨o, _ | ⟨_, _⟩⟩
  · rfl
  · cases o <;> rfl
  · rfl

end FilterCompiler

/-! ## §2 Null checks in a HAVING clause -/

namespace Expr

mutual

/-- An expression and all expressions inside it. -/
def subexprs : Expr → List Expr
  | .and l r => .and l r :: l.subexprs ++ r.subexprs
  | .or l r => .or l r :: l.subexprs ++ r.subexprs
  | .not e => .not e :: e.subexprs
  | .compare op l r => .compare op l r :: l.subexprs ++ r.subexprs
  | .isNull e => .isNull e :: e.subexprs
  | .member e source => .member e source :: e.subexprs
  | .arithmetic op l r => .arithmetic op l r :: l.subexprs ++ r.subexprs
  | .call f args => .call f args :: subexprsAll args
  | .column c => [.column c]
  | .variable v => [.variable v]
  | .constant value type => [.constant value type]

/-- All expressions inside the arguments of a call, the arguments among them. -/
def subexprsAll : List Expr → List Expr
  | [] => []
  | e :: rest => e.subexprs ++ subexprsAll rest

end

theorem enter_isNull_mem_trace_iff {e : Expr} :
    .enter .isNull ∈ e.trace ↔ ∃ operand, .isNull operand ∈ e.subexprs := by
  induction e with
  | and l r ihl ihr | or l r ihl ihr => simp [trace, subexprs, ihl, ihr, exists_or]
  | compare op l r ihl ihr | arithmetic op l r ihl ihr =>
    simp [trace, subexprs, ihl, ihr, exists_or]
  | not e ih | member e source ih => simp [trace, subexprs, ih]
  | isNull e ih => simp [trace, subexprs]
  | call f args ih =>
    have hargs : .enter .isNull ∈ traceAll args ↔
        ∃ operand, .isNull operand ∈ subexprsAll args := by
      induction args with
      | nil => simp [traceAll, subexprsAll]
      | cons first rest ihrest =>
        obtain ⟨hfirst, hrest⟩ := List.forall_mem_cons.1 ih
        simp [traceAll, subexprsAll, hfirst, ihrest hrest, exists_or]
    simp [trace, subexprs, hargs]
  | column c | var v | constant value type => simp [trace, subexprs]

end Expr

namespace FilterCompiler

/-- Whether a callback enters a null check. -/
def entersNullCheck (c : Callback) : Bool :=
  c = .enter .isNull

/-- What a filter compiler does, with every null check refused. -/
def withoutNullChecks : Callback → Run FilterCompiler Unit :=
  refusing entersNullCheck (.unsupportedInHaving .isNull) visit

/-- The states of a WHERE compiler and of a HAVING compiler that have come equally far. -/
def SameInHaving (s t : FilterCompiler) : Prop :=
  s.clause = .matching ∧ t = { s with clause := .having }

/-- Callback by callback, a HAVING compiler acts as a WHERE compiler that refuses null checks. -/
theorem goAlike_having (c : Callback) : GoAlike SameInHaving (withoutNullChecks c) (visit c) := by
  rintro s t ⟨hs, rfl⟩
  cases c with
  -- a null check is refused on both sides, and no other construct asks for the clause
  | enter construct => cases construct <;> exact ⟨rfl, hs, rfl⟩
  | leave construct =>
    show ((leave construct).exec s).1 = ((leave construct).exec { s with clause := .having }).1 ∧
      SameInHaving ((leave construct).exec s).2
        ((leave construct).exec { s with clause := .having }).2
    obtain ⟨hclause, htable⟩ := exec_leave_keeps construct s
    rw [exec_leave_framed construct s .having s.table, ← htable]
    exact ⟨rfl, hclause.trans hs, rfl⟩
  | _ => exact ⟨rfl, hs, rfl⟩

section

variable (other : Construct)

theorem eval_leave_ne (c : Construct) (s : FilterCompiler) :
    (leave c).eval s ≠ .error (.unsupportedInHaving other) := by
  obtain ⟨_, idField, ⟨items⟩, _, lastMirrored⟩ := s
  intro h
  cases c with
  | and | or | compare op =>
    rcases items with _ | ⟨right, _ | ⟨left, rest⟩⟩
    · cases h
    · cases h
    · cases left <;> cases right <;> cases h
  | not => rcases items with _ | ⟨_ | _ | _ | (_ | _), rest⟩ <;> cases h
  | isNull => rcases items with _ | ⟨_ | _ | _ | _, rest⟩ <;> cases h
  | _ => cases h

theorem finish_ne (s : FilterCompiler) : s.finish ≠ .error (.unsupportedInHaving other) := by
  obtain ⟨_, _, ⟨items⟩, _, _⟩ := s
  intro h
  rcases items with _ | ⟨o, _ | ⟨_, _⟩⟩
  · cases h
  · cases o <;> cases h
  · cases h

theorem visit_matching_ne (c : Callback) {s : FilterCompiler} (hs : s.clause = .matching) :
    (visit c).eval s ≠ .error (.unsupportedInHaving other) ∧
      ((visit c).exec s).2.clause = .matching := by
  cases c with
  | enter construct =>
    obtain ⟨_, _, _, _, _⟩ := s
    cases hs
    refine ⟨fun h => ?_, by cases construct <;> rfl⟩
    cases construct <;> cases h
  | leave construct =>
    exact ⟨eval_leave_ne other construct s, (exec_leave_keeps construct s).1.trans hs⟩
  | _ =>
    refine ⟨fun h => ?_, hs⟩
    cases h

/-- A WHERE clause is never refused for what HAVING clauses do not support. -/
theorem compileFilter_ne (config : Config) (sequence : Sequence) (e : Expr) :
    compileFilter config sequence e ≠ .error (.unsupportedInHaving other) := by
  have hwalk : (e.walk visit).eval (start config .matching sequence) ≠
      .error (.unsupportedInHaving other) := by
    rw [Expr.walk_eq_forM_trace]
    exact eval_forM_ne_error (fun c s hs => visit_matching_ne other c hs) rfl e.trace
  intro h
  unfold compileFilter at h
  rw [compile_eq] at h
  -- neither the traversal nor its end gives the error
  rcases Run.bind_eq_error_iff.1 h with hfailed | ⟨_, _, hfinish⟩
  · exact hwalk hfailed
  · exact finish_ne other _ hfinish

end

variable {config : Config} {sequence : Sequence} {e : Expr} {compiled : CompiledFragment}

/-- A HAVING clause is compiled as a WHERE clause is, with every null check refused. -/
theorem compileHaving_eq :
    compileHaving config sequence e =
      ((e.walk withoutNullChecks).exec (start config .matching sequence)).1 >>= fun _ =>
        ((e.walk withoutNullChecks).exec (start config .matching sequence)).2.finish := by
  have hwalk : GoAlike SameInHaving (e.walk withoutNullChecks) (e.walk visit) :=
    .walk fun c _ => goAlike_having c
  obtain ⟨houtcome, _, hstate⟩ :=
    hwalk (start config .matching sequence) (start config .having sequence) ⟨rfl, rfl⟩
  unfold compileHaving
  rw [compile_eq, ← houtcome, hstate]
  -- the end of a clause does not ask which clause it is
  rfl

theorem compileHaving_of_reaches
    (h : e.Reaches visit (start config .matching sequence) (.enter .isNull)) :
    compileHaving config sequence e = .error (.unsupportedInHaving .isNull) := by
  have hrefused : ((e.walk withoutNullChecks).exec (start config .matching sequence)).1 =
      .error (.unsupportedInHaving .isNull) :=
    eval_walk_refusing rfl h
  rw [compileHaving_eq, hrefused]
  rfl

theorem compileHaving_of_not_reaches
    (h : ¬ e.Reaches visit (start config .matching sequence) (.enter .isNull)) :
    compileHaving config sequence e = compileFilter config sequence e := by
  have hwalk : (e.walk withoutNullChecks).exec (start config .matching sequence) =
      (e.walk visit).exec (start config .matching sequence) :=
    exec_walk_refusing fun c hc => of_decide_eq_true hc ▸ h
  rw [compileHaving_eq, hwalk]
  exact (compile_eq _ e).symm

/-- A clause that compiles is gone through to its end, so its null checks are all reached. -/
theorem reaches_isNull_iff (h : compileFilter config sequence e = .ok compiled) :
    e.Reaches visit (start config .matching sequence) (.enter .isNull) ↔
      ∃ operand, .isNull operand ∈ e.subexprs := by
  unfold compileFilter at h
  rw [compile_eq] at h
  obtain ⟨⟨⟩, hwalk, _⟩ := Run.bind_eq_ok_iff.1 h
  rw [Expr.reaches_iff_mem_trace (Prod.ext hwalk rfl), Expr.enter_isNull_mem_trace_iff]

end FilterCompiler

/-- **HAVING is WHERE without null checks**: what a HAVING clause compiles to is what a WHERE clause
    compiles to, error or not, unless a null check is entered before the WHERE compiler fails; that
    one is then refused.  So a HAVING clause compiles exactly if it compiles as a WHERE clause and
    holds no null check. -/
theorem having_is_where_without_nullChecks (config : Config) (sequence : Sequence) (e : Expr) :
    (compileHaving config sequence e = compileFilter config sequence e ∨
        compileHaving config sequence e = .error (.unsupportedInHaving .isNull)) ∧
      (compileHaving config sequence e = .error (.unsupportedInHaving .isNull) ↔
        e.Reaches FilterCompiler.visit (.start config .matching sequence) (.enter .isNull)) ∧
      ∀ compiled, compileHaving config sequence e = .ok compiled ↔
        compileFilter config sequence e = .ok compiled ∧
          ∀ operand, .isNull operand ∉ e.subexprs := by
  by_cases hreaches :
      e.Reaches FilterCompiler.visit (.start config .matching sequence) (.enter .isNull)
  · have hhaving := FilterCompiler.compileHaving_of_reaches hreaches
    refine ⟨.inr hhaving, iff_of_true hhaving hreaches, fun compiled => ?_⟩
    rw [hhaving]
    constructor
    · intro h
      cases h
    -- what compiles in WHERE and reaches a null check holds one
    · rintro ⟨hfilter, hnone⟩
      obtain ⟨operand, hoperand⟩ := (FilterCompiler.reaches_isNull_iff hfilter).1 hreaches
      exact absurd hoperand (hnone operand)
  · have hhaving := FilterCompiler.compileHaving_of_not_reaches hreaches
    have hne : compileHaving config sequence e ≠ .error (.unsupportedInHaving .isNull) := by
      rw [hhaving]
      exact FilterCompiler.compileFilter_ne .isNull config sequence e
    refine ⟨.inl hhaving, iff_of_false hne hreaches, fun compiled => ?_⟩
    rw [hhaving, iff_self_and]
    intro hfilter operand hoperand
    exact hreaches ((FilterCompiler.reaches_isNull_iff hfilter).2 ⟨operand, hoperand⟩)

/-! ## §3 Tables that look alike -/

namespace PlaceholderTable

variable {ω : Type} {view : PlaceholderEntry → ω} {t t' : PlaceholderTable}

/-- Tables that cannot be told apart by what is seen of their entries. -/
structure LooksLike (view : PlaceholderEntry → ω) (t t' : PlaceholderTable) : Prop where
  sequence : t.sequence = t'.sequence
  get? : ∀ name, (t.entries.get? name).map view = (t'.entries.get? name).map view

namespace LooksLike

theorem refl (t : PlaceholderTable) : t.LooksLike view t :=
  ⟨rfl, fun _ => rfl⟩

/-- What is read off the part that is seen is the same in both tables. -/
theorem read_eq {β : Type} {read : PlaceholderEntry → Option β} (h : t.LooksLike view t')
    (hread : ∀ a b, view a = view b → read a = read b) (name : String) :
    (t.entries.get? name).bind read = (t'.entries.get? name).bind read := by
  have hname := h.get? name
  cases ha : t.entries.get? name with
  | none =>
    rw [ha, Option.map_none, eq_comm, Option.map_eq_none_iff] at hname
    rw [hname]
  | some a =>
    rw [ha, Option.map_some, eq_comm, Option.map_eq_some_iff] at hname
    obtain ⟨b, hb, hview⟩ := hname
    rw [hb]
    exact hread a b hview.symm

theorem remaining_eq (h : t.LooksLike view t')
    (hview : ∀ a b, view a = view b →
      PlaceholderEntry.variable? a = PlaceholderEntry.variable? b) : t.remaining = t'.remaining := by
  apply NameTable.ext_get?
  intro name
  unfold remaining
  rw [NameTable.get?_filterMap, NameTable.get?_filterMap]
  exact h.read_eq hview name

theorem inline_eq (h : t.LooksLike view t')
    (hview : ∀ a b, view a = view b → a.literalText? = b.literalText?) : t.inline = t'.inline := by
  have htext : t.literalText? = t'.literalText? := funext fun name => h.read_eq hview name
  unfold inline
  rw [htext]

theorem get?_insert (h : t.LooksLike view t') {a b : PlaceholderEntry} (hab : view a = view b)
    (name other : String) :
    ((t.entries.insert name a).get? other).map view =
      ((t'.entries.insert name b).get? other).map view := by
  rw [NameTable.get?_insert, NameTable.get?_insert]
  split
  · exact congrArg some hab
  · exact h.get? other

theorem allocateVariable (h : t.LooksLike view t') (v : Variable) :
    (t.allocateVariable v).1 = (t'.allocateVariable v).1 ∧
      (t.allocateVariable v).2.LooksLike view (t'.allocateVariable v).2 := by
  obtain ⟨entries, sequence⟩ := t
  obtain ⟨entries', _⟩ := t'
  -- the sequences agree, and the next name depends on nothing else
  cases h.sequence
  exact ⟨rfl, rfl, h.get?_insert rfl _⟩

theorem allocateLiteral (h : t.LooksLike view t') {value value' : Value}
    {type type' : AttributeType}
    (hview : view (.literal value type) = view (.literal value' type')) :
    (t.allocateLiteral value type).1 = (t'.allocateLiteral value' type').1 ∧
      (t.allocateLiteral value type).2.LooksLike view (t'.allocateLiteral value' type').2 := by
  obtain ⟨entries, sequence⟩ := t
  obtain ⟨entries', _⟩ := t'
  cases h.sequence
  exact ⟨rfl, rfl, h.get?_insert hview _⟩

end LooksLike

end PlaceholderTable

/-! ## §4 Other leaves -/

/-- A relabeling keeps what is seen of an expression: the fields of its columns, and a part of each of
    its constants. -/
structure Relabeling.Keeps {ω : Type} (ρ : Relabeling) (view : PlaceholderEntry → ω) (e : Expr) :
    Prop where
  column : ∀ c ∈ e.columns, (ρ.column c).field = c.field
  constant : ∀ c ∈ e.constants,
    view (.literal (ρ.constant c).1 (ρ.constant c).2) = view (.literal c.1 c.2)

namespace FilterCompiler

variable {ω γ : Type} {view : PlaceholderEntry → ω} {ρ : Relabeling} {e : Expr}

/-- The same state, but for a table that looks alike. -/
def SameUpTo (view : PlaceholderEntry → ω) (s t : FilterCompiler) : Prop :=
  ∃ table, s.table.LooksLike view table ∧ t = { s with table }

theorem goAlike_of_framed {step : Run FilterCompiler Unit}
    (h : ∀ s table, step.exec { s with table } = ((step.exec s).1, { (step.exec s).2 with table })) :
    GoAlike (SameUpTo view) step step := by
  rintro s _ ⟨table, htable, rfl⟩
  -- with its own table in the place of another one, the step is seen to leave the table alone
  have hkept : (step.exec s).2.table = s.table := congrArg (fun r => r.2.table) (h s s.table)
  rw [h s table]
  exact ⟨rfl, table, hkept ▸ htable, rfl⟩

/-- Callback by callback, a relabeled expression is compiled as the expression is. -/
theorem goAlike_relabel (h : ρ.Keeps view e) {c : Callback} (hc : c ∈ e.trace) :
    GoAlike (SameUpTo view) (visit c) (visit (ρ.callback c)) := by
  cases c with
  | enter construct => exact goAlike_of_framed (exec_enter_framed construct)
  | between construct => exact goAlike_of_framed fun _ _ => rfl
  | leave construct =>
    refine goAlike_of_framed fun s table =>
      (exec_leave_framed construct s s.clause table).trans ?_
    rw [← (exec_leave_keeps construct s).1]
    rfl
  | column c =>
    have hfield := h.column c (List.mem_filterMap.2 ⟨_, hc, rfl⟩)
    have hvisit : visit (ρ.callback (.column c)) = visit (.column c) := by
      simp only [Relabeling.callback, visit, hfield]
    rw [hvisit]
    exact goAlike_of_framed fun _ _ => rfl
  | «variable» v =>
    rintro s _ ⟨table, htable, rfl⟩
    obtain ⟨hname, hlooks⟩ := htable.allocateVariable v
    refine ⟨rfl, _, hlooks, ?_⟩
    simp only [Relabeling.callback, visit, pushVariable, Run.exec_modify, hname]
  | literal value type =>
    have hview := h.constant (value, type)
      (Expr.mem_constants_iff.2 (List.mem_filterMap.2 ⟨_, hc, rfl⟩))
    rintro s _ ⟨table, htable, rfl⟩
    obtain ⟨hname, hlooks⟩ := htable.allocateLiteral hview.symm
    refine ⟨rfl, _, hlooks, ?_⟩
    simp only [Relabeling.callback, visit, pushLiteral, Run.exec_modify, hname]

/-- **What is not seen of the leaves is not seen of the clause**, if it cannot be told from a finished
    operand and a table either. -/
theorem compile_relabel {f : CompiledFragment → γ} (h : ρ.Keeps view e) (s : FilterCompiler)
    (hf : ∀ t t' : PlaceholderTable, t.LooksLike view t' → ∀ o mirrored,
      (finished o ⟨t, mirrored⟩).map f = (finished o ⟨t', mirrored⟩).map f) :
    (s.compile (e.relabel ρ)).map f = (s.compile e).map f := by
  have hwalk : GoAlike (SameUpTo view) (e.walk visit) ((e.relabel ρ).walk visit) := by
    rw [Expr.walk_relabel]
    exact .walk fun c hc => goAlike_relabel h hc
  obtain ⟨houtcome, table, htable, hstate⟩ := hwalk s s ⟨s.table, .refl s.table, rfl⟩
  rw [compile_eq, compile_eq, ← houtcome, hstate]
  -- from here on only the state that is left matters, not how it came about
  generalize (e.walk visit).exec s = result at htable ⊢
  rcases result with ⟨_ | ⟨⟩, s'⟩
  · rfl
  · show (finish { s' with table }).map f = s'.finish.map f
    rw [finish_eq, finish_eq]
    show (s'.stack.root.mapError .internal >>= fun o =>
      finished o ⟨table, s'.lastMirrored⟩).map f = _
    cases s'.stack.root with
    | error fault => rfl
    | ok o => exact (hf _ _ htable o s'.lastMirrored).symm

end FilterCompiler

/-- Columns without their table and type, and every constant replaced by the same one. -/
def Relabeling.blank : Relabeling where
  column c := { field := c.field, type := .object }
  constant _ := (.null, .object)

/-- What a compiled clause says besides its text. -/
def CompiledFragment.surroundings (c : CompiledFragment) : Placeholders × Sequence × Bool :=
  (c.placeholders, c.sequence, c.mirrored)

theorem FilterCompiler.surroundings_compile_blank (s : FilterCompiler) (e : Expr) :
    (s.compile (e.relabel .blank)).map CompiledFragment.surroundings =
      (s.compile e).map CompiledFragment.surroundings := by
  -- of a constant it is seen that it is no variable, and nothing else
  have hkeeps : Relabeling.blank.Keeps PlaceholderEntry.variable? e :=
    ⟨fun _ _ => rfl, fun _ _ => rfl⟩
  apply compile_relabel hkeeps
  intro t t' h o mirrored
  cases o with
  | condition c =>
    have hremaining := h.remaining_eq fun _ _ => id
    have hsequence := h.sequence
    simp only [finished, Except.map, CompiledFragment.surroundings, hremaining, hsequence]
  | _ => rfl

/-- **Constants show in the text only**: clauses that differ in nothing but the values and types of
    their constants, and the tables and types of their columns, fail with the same error or leave the
    same variables to be bound, the same sequence and the same flag. -/
theorem constants_show_in_text_only (config : Config) (sequence : Sequence) {e e' : Expr}
    (h : e.relabel .blank = e'.relabel .blank) :
    (compileFilter config sequence e).map CompiledFragment.surroundings =
        (compileFilter config sequence e').map CompiledFragment.surroundings ∧
      (compileHaving config sequence e).map CompiledFragment.surroundings =
        (compileHaving config sequence e').map CompiledFragment.surroundings := by
  have hcompile (s : FilterCompiler) : (s.compile e).map CompiledFragment.surroundings =
      (s.compile e').map CompiledFragment.surroundings := by
    rw [← s.surroundings_compile_blank e, h, s.surroundings_compile_blank e']
  exact ⟨hcompile _, hcompile _⟩

/-- A name, and a price above a variable. -/
def nameAndPrice (table : Option String) (name : Value) (type : AttributeType) : Expr :=
  .and (.compare .eq (.column { table, field := "name", type }) (.constant name type))
    (.compare .lt (.variable { field := "low", type := .int })
      (.column { table, field := "price", type := .int }))

/-- The name may hold a quote behind which a placeholder is hidden, or be the name of one. -/
theorem constants_show_in_text_only_hiddenNames :
    (nameAndPrice none (.text "O'Neil") .string).relabel .blank =
        (nameAndPrice (some "items") (.text "var1") .int).relabel .blank ∧
      (compileFilter {} {} (nameAndPrice none (.text "O'Neil") .string)).map
          CompiledFragment.surroundings =
        (compileFilter {} {} (nameAndPrice (some "items") (.text "var1") .int)).map
          CompiledFragment.surroundings ∧
      ∃ compiled, compileFilter {} {} (nameAndPrice none (.text "O'Neil") .string) = .ok compiled := by
  have hblank : (nameAndPrice none (.text "O'Neil") .string).relabel .blank =
      (nameAndPrice (some "items") (.text "var1") .int).relabel .blank := rfl
  exact ⟨hblank, (constants_show_in_text_only {} {} hblank).1, _, rfl⟩

end QueryPipeline
