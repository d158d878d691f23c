import QueryPipeline.Proofs.Projection.Direct
import QueryPipeline.Proofs.Traversal

/-!
# First offences of projections

An expression can offend in several places at once, and only one error is reported.  Here every
callback of an expression is judged for itself: operators and unknown functions offend where they are
entered, aggregates inside another one too, and a wrong number of arguments offends where the call is
left.  The compiler reports the first offence in the order of the callbacks, and gets no callback
after it.

## Main definitions

- `Expr.judged`: the callbacks of an expression, each with the offence that it is.
- `FirstOffence`: the callbacks up to the first offence, and its error.
- `Projects`: expressions that are projections, and what they are projected to.

## Main statements

- `Expr.map_fst_judged`: judging keeps the order of the traversal.
- `ProjectionCompiler.goesAsJudged`: callbacks succeed and fail as they are judged.
- `compileProjection_reports_first_offence`: what compiles, and what is reported otherwise.
-/

namespace QueryPipeline

/-! ## §1 Judging callbacks -/

/-- Entering a call offends if the function is no aggregate, or if another aggregate is open. -/
def enteringOffence? (outer : Option Aggregate) (f : FunctionName) : Option CompileError :=
  match Aggregate.ofFunction? f, outer with
  | none, _ => some (.unsupportedFunction (.unknown f))
  | some inner, some outer => some (.unsupportedFunction (.nested inner outer))
  | some _, none => none

theorem enteringOffence?_inside (outer : Aggregate) (f : FunctionName) :
    enteringOffence? (some outer) f = some (ProjectionCompiler.refusedInside outer (.call f)) := by
  cases hf : Aggregate.ofFunction? f <;>
    simp [enteringOffence?, ProjectionCompiler.refusedInside, hf]

/-- Leaving an aggregate offends if it had other than one argument. -/
def leavingOffence? (f : FunctionName) (count : Nat) : Option CompileError :=
  match Aggregate.ofFunction? f with
  | none => none
  | some function =>
    if count = 1 then none else some (.unsupportedFunction (.arity function count))

/-- An operator around its judged operands: it offends where it is entered. -/
def judgedOperator (c : Construct) (operands : List (Callback × Option CompileError)) :
    List (Callback × Option CompileError) :=
  (.enter c, some (.unsupportedOperation (.inProjection c))) :: operands ++ [(.leave c, none)]

mutual

/-- The callbacks of an expression inside a call of `outer`, or outside calls, each with the offence
    that it is. -/
def Expr.judged (outer : Option Aggregate) : Expr → List (Callback × Option CompileError)
  | .and l r => judgedOperator .and (l.judged outer ++ (.between .and, none) :: r.judged outer)
  | .or l r => judgedOperator .or (l.judged outer ++ (.between .or, none) :: r.judged outer)
  | .not e => judgedOperator .not (e.judged outer)
  | .compare op l r =>
    judgedOperator (.compare op) (l.judged outer ++ (.between (.compare op), none) :: r.judged outer)
  | .isNull e => judgedOperator .isNull (e.judged outer)
  | .member e source => judgedOperator (.member source) (e.judged outer)
  | .arithmetic op l r =>
    judgedOperator (.arithmetic op)
      (l.judged outer ++ (.between (.arithmetic op), none) :: r.judged outer)
  | .call f args =>
    -- only a call of an aggregate changes which aggregate is open
    (.enter (.call f), enteringOffence? outer f) ::
      Expr.judgedAll ((Aggregate.ofFunction? f).or outer) args ++
        [(.leave (.call f), leavingOffence? f args.length)]
  | .column c => [(.column c, none)]
  | .variable v => [(.variable v, none)]
  | .constant value type => [(.literal value type, none)]

/-- The callbacks of the arguments of a call, each with the offence that it is. -/
def Expr.judgedAll (outer : Option Aggregate) : List Expr → List (Callback × Option CompileError)
  | [] => []
  | e :: rest => e.judged outer ++ Expr.judgedAll outer rest

end

/-- The callbacks up to the first one that offends, and the error for it. -/
def FirstOffence (judged : List (Callback × Option CompileError)) (made : List Callback)
    (err : CompileError) : Prop :=
  ∃ before c after, judged = before ++ (c, some err) :: after ∧ (∀ j ∈ before, j.2 = none) ∧
    made = before.map Prod.fst ++ [c]

theorem exists_firstOffence (judged : List (Callback × Option CompileError)) :
    (∀ j ∈ judged, j.2 = none) ∨ ∃ made err, FirstOffence judged made err := by
  induction judged with
  | nil => exact .inl fun j hj => absurd hj List.not_mem_nil
  | cons j rest ih =>
    obtain ⟨c, _ | err⟩ := j
    · rcases ih with hrest | ⟨made, err, before, c', after, rfl, hbefore, rfl⟩
      · exact .inl (List.forall_mem_cons.2 ⟨rfl, hrest⟩)
      · exact .inr ⟨_, err, (c, none) :: before, c', after, rfl,
          List.forall_mem_cons.2 ⟨rfl, hbefore⟩, rfl⟩
    · exact .inr ⟨_, err, [], c, rest, rfl, fun j hj => absurd hj List.not_mem_nil, rfl⟩

/-! ## §2 The order of the traversal -/

namespace Expr

/-- **Judging keeps the order of the traversal.** -/
theorem map_fst_judged (e : Expr) (outer : Option Aggregate) :
    (e.judged outer).map Prod.fst = e.trace := by
  induction e generalizing outer with
  | and l r ihl ihr => simp [judged, trace, judgedOperator, ihl, ihr]
  | or l r ihl ihr => simp [judged, trace, judgedOperator, ihl, ihr]
  | not e ih => simp [judged, trace, judgedOperator, ih]
  | compare op l r ihl ihr => simp [judged, trace, judgedOperator, ihl, ihr]
  | isNull e ih => simp [judged, trace, judgedOperator, ih]
  | member e source ih => simp [judged, trace, judgedOperator, ih]
  | arithmetic op l r ihl ihr => simp [judged, trace, judgedOperator, ihl, ihr]
  | call f args ih =>
    have hargs : ∀ inner, (judgedAll inner args).map Prod.fst = traceAll args := by
      intro inner
      induction args with
      | nil => rfl
      | cons first rest ihrest =>
        obtain ⟨hfirst, hrest⟩ := List.forall_mem_cons.1 ih
        rw [judgedAll, traceAll, List.map_append, hfirst, ihrest hrest]
    simp [judged, trace, hargs]
  | column c => rfl
  | var v => rfl
  | constant value type => rfl

variable {e : Expr}

theorem judged_of_leaf {l : Leaf} (h : e.leaf = .ok l) (outer : Option Aggregate) :
    e.judged outer = [(l.callback, none)] := by
  cases e <;> cases h <;> rfl

/-- Inside a call every node offends where it is entered. -/
theorem judged_of_node {c : Construct} (h : e.leaf = .error c) (outer : Aggregate) :
    ∃ rest, e.judged (some outer) =
      (.enter c, some (ProjectionCompiler.refusedInside outer c)) :: rest := by
  cases e with
  | call f args =>
    cases h
    rw [judged, enteringOffence?_inside]
    exact ⟨_, rfl⟩
  | _ => cases h <;> exact ⟨_, rfl⟩

end Expr

/-! ## §3 Callbacks that go as judged -/

/-- From a state on, callbacks succeed up to the first that offends, which fails with its error. -/
def GoesAsJudged {σ : Type} (visit : Callback → Run σ Unit) :
    σ → List (Callback × Option CompileError) → Prop
  | _, [] => True
  | s, (c, none) :: rest => ∃ s', (visit c).exec s = (.ok (), s') ∧ GoesAsJudged visit s' rest
  | s, (c, some err) :: _ => (visit c).eval s = .error err

/-- Up to its first offence such a run succeeds. -/
theorem GoesAsJudged.exists_stop {σ : Type} {visit : Callback → Run σ Unit} {s : σ}
    {before after : List (Callback × Option CompileError)} {c : Callback} {err : CompileError}
    (h : GoesAsJudged visit s (before ++ (c, some err) :: after))
    (hbefore : ∀ j ∈ before, j.2 = none) :
    ∃ s', ((before.map Prod.fst).forM visit).exec s = (.ok (), s') ∧
      (visit c).eval s' = .error err := by
  induction before generalizing s with
  | nil => exact ⟨s, rfl, h⟩
  | cons j before ih =>
    obtain ⟨hj, hrest⟩ := List.forall_mem_cons.1 hbefore
    obtain ⟨c', _⟩ := j
    cases hj
    obtain ⟨t, hc', hgoes⟩ := h
    obtain ⟨s', hexec, hstop⟩ := ih hgoes hrest
    exact ⟨s', (Run.exec_bind_ok hc').trans hexec, hstop⟩

namespace ProjectionCompiler

/-- A call that is left: the number of operands since it was opened is looked at. -/
theorem goesAsJudged_leave {f : FunctionName} {function : Aggregate}
    (hf : Aggregate.ofFunction? f = some function) (ps : List Projection) :
    GoesAsJudged visit ⟨⟨ps.reverse⟩, [(function, 0)]⟩
      [(.leave (.call f), leavingOffence? f ps.length)] := by
  have hclose := exec_closeCall f function ps [] []
  rw [List.append_nil, List.length_nil] at hclose
  rcases ps with _ | ⟨p, _ | ⟨q, rest⟩⟩
  · simp only [leavingOffence?, hf]
    exact congrArg Prod.fst hclose
  · simp only [leavingOffence?, hf]
    exact ⟨_, hclose, trivial⟩
  · simp only [leavingOffence?, hf, List.length_cons]
    rw [if_neg (by omega)]
    exact congrArg Prod.fst hclose

/-- **Inside a call**, with some arguments compiled and others to come. -/
theorem goesAsJudged_arguments {f : FunctionName} {function : Aggregate}
    (hf : Aggregate.ofFunction? f = some function) (args : List Expr) (ps : List Projection) :
    GoesAsJudged visit ⟨⟨ps.reverse⟩, [(function, 0)]⟩
      (Expr.judgedAll (some function) args ++
        [(.leave (.call f), leavingOffence? f (ps.length + args.length))]) := by
  induction args generalizing ps with
  | nil => exact goesAsJudged_leave hf ps
  | cons first rest ih =>
    rw [Expr.judgedAll]
    cases hleaf : first.leaf with
    | error c =>
      obtain ⟨others, hothers⟩ := Expr.judged_of_node hleaf function
      rw [hothers]
      exact eval_enter_inside rfl c
    | ok l =>
      -- a leaf is one more operand
      have hnext := ih (ps ++ [l.projection])
      rw [List.reverse_append, List.length_append, Nat.add_assoc, Nat.add_comm [_].length] at hnext
      rw [Expr.judged_of_leaf hleaf]
      exact ⟨_, exec_visit_leaf l _, hnext⟩

/-- **Callbacks succeed and fail as they are judged.** -/
theorem goesAsJudged (e : Expr) : GoesAsJudged visit {} (e.judged none) := by
  cases e with
  | call f args =>
    rw [Expr.judged]
    cases hf : Aggregate.ofFunction? f with
    | none =>
      simp only [enteringOffence?, hf]
      exact congrArg Prod.fst (exec_openCall_of_unknown hf)
    | some function =>
      have hargs := goesAsJudged_arguments hf args []
      rw [List.length_nil, Nat.zero_add] at hargs
      simp only [enteringOffence?, hf]
      exact ⟨_, exec_openCall hf rfl, hargs⟩
  | column c => exact ⟨_, exec_visit_leaf (.column c) _, trivial⟩
  | «variable» v => exact ⟨_, exec_visit_leaf (.entry (.variable v)) _, trivial⟩
  | constant value type => exact ⟨_, exec_visit_leaf (.entry (.literal value type)) _, trivial⟩
  -- the other nodes are refused where they are entered
  | _ => rfl

end ProjectionCompiler

open ProjectionCompiler

/-! ## §4 What is a projection -/

theorem Aggregate.ofFunction?_eq_some_iff {f : FunctionName} {function : Aggregate} :
    Aggregate.ofFunction? f = some function ↔ f = { name := function.name } := by
  constructor
  · intro h
    obtain ⟨_ | qualifier, name⟩ := f
    · have hfound : (function.name == name) = true :=
        @List.find?_some _ (fun a : Aggregate => a.name == name) function Aggregate.all h
      rw [eq_of_beq hfound]
    · cases h
  · rintro rfl
    cases function <;> rfl

/-- Expressions that are projections, and what they are projected to. -/
inductive Projects : Expr → Projection → Prop where
  | leaf {e : Expr} {l : Leaf} (h : e.leaf = .ok l) : Projects e l.projection
  | aggregate (function : Aggregate) {e : Expr} {l : Leaf} (h : e.leaf = .ok l) :
      Projects (.call { name := function.name } [e]) (.aggregate function l.projection)

theorem compileProjection_eq_ok_iff {e : Expr} {p : Projection} :
    compileProjection e = .ok p ↔ Projects e p := by
  constructor
  · intro h
    rcases compileProjection_eq_ok h with
      ⟨l, hleaf, rfl⟩ | ⟨f, function, a, l, rfl, hf, hleaf, rfl⟩
    · exact .leaf hleaf
    · cases Aggregate.ofFunction?_eq_some_iff.1 hf
      exact .aggregate function hleaf
  · intro h
    cases h with
    | leaf hleaf => exact compileProjection_of_leaf hleaf
    | @aggregate function a l hleaf =>
      have hargument : argument function a = .ok l.projection := by
        rw [argument, hleaf]
        rfl
      rw [compileProjection_call (Aggregate.ofFunction?_eq_some_iff.2 rfl), List.mapM_cons, hargument]
      rfl

/-- What offends nowhere is a projection. -/
theorem exists_projects {e : Expr} (h : ∀ j ∈ e.judged none, j.2 = none) : ∃ p, Projects e p := by
  cases e with
  | call f args =>
    rw [Expr.judged] at h
    have henter : enteringOffence? none f = none := h _ List.mem_cons_self
    have hleave : leavingOffence? f args.length = none :=
      h _ (List.mem_append_right _ (List.mem_singleton_self _))
    cases hf : Aggregate.ofFunction? f with
    | none => simp [enteringOffence?, hf] at henter
    | some function =>
      have hone : args.length = 1 := by
        simpa [leavingOffence?, hf] using hleave
      obtain ⟨a, rfl⟩ := List.length_eq_one_iff.1 hone
      cases hleaf : a.leaf with
      | ok l =>
        cases Aggregate.ofFunction?_eq_some_iff.1 hf
        exact ⟨_, .aggregate function hleaf⟩
      | error c =>
        -- an argument that is a node would offend where it is entered
        obtain ⟨rest, hrest⟩ := Expr.judged_of_node hleaf function
        have hnode := h (.enter c, some (refusedInside function c))
          (by simp [Expr.judgedAll, hf, hrest])
        cases hnode
  | column c => exact ⟨_, .leaf rfl⟩
  | «variable» v => exact ⟨_, .leaf rfl⟩
  | constant value type => exact ⟨_, .leaf rfl⟩
  | _ => cases h _ List.mem_cons_self

/-! ## §5 What is reported -/

/-- At the first offence the traversal ends, with the error for it. -/
theorem FirstOffence.reported {e : Expr} {made : List Callback} {err : CompileError}
    (h : FirstOffence (e.judged none) made err) :
    compileProjection e = .error err ∧ e.issued visit {} = made := by
  obtain ⟨before, c, after, hjudged, hbefore, rfl⟩ := h
  have hgoes := goesAsJudged e
  rw [hjudged] at hgoes
  obtain ⟨s', hexec, hstop⟩ := hgoes.exists_stop hbefore
  have htrace : e.trace = before.map Prod.fst ++ c :: after.map Prod.fst := by
    rw [← e.map_fst_judged none, hjudged, List.map_append, List.map_cons]
  exact ⟨compileProjection_of_eval_error (Expr.eval_walk_of_stop htrace hexec hstop),
    Expr.issued_of_stop htrace hexec hstop⟩

/-- An aggregate that is nested and that is followed by a second argument: the nesting comes first. -/
example :
    compileProjection (.call { name := "max" }
      [.call { name := "min" } [.ofValue (.int 1)], .ofValue (.int 2)]) =
        .error (.unsupportedFunction (.nested .min .max)) :=
  rfl

end QueryPipeline
