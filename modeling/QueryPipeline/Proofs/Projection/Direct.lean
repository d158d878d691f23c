import QueryPipeline.Projection
import QueryPipeline.Proofs.Leaves
import QueryPipeline.Proofs.Refusal

/-!
# Projections without a stack

A projection is a leaf, or a call of an aggregate over one leaf.  `direct` says so in one step; the
compiler comes to the same by callbacks, with a stack of operands and a record of the open calls.

## Main definitions

- `Leaf.projection`: what a leaf is projected to.
- `ProjectionCompiler.direct`: the projection of an expression.

## Main statements

- `compileProjection_eq`: the compiler agrees with `direct`, in results and in errors.
- `onlyRefuses_compileProjection`, `onlyRefuses_compileKey`: nothing fails for the state of the
  compiler.
-/

namespace QueryPipeline

/-! ## §1 The projection of an expression -/

/-- What a leaf is projected to: constants are written at once, and variables are masked. -/
def Leaf.projection : Leaf → Projection
  | .column c => .column c.field
  | .entry (.variable _) => .masked
  | .entry (.literal value type) => .constant (value.renderAs type)

namespace ProjectionCompiler

/-- Why a node is refused inside a call of an aggregate. -/
def refusedInside (outer : Aggregate) : Construct → CompileError
  | .call f =>
    match Aggregate.ofFunction? f with
    | none => .unsupportedFunction (.unknown f)
    | some inner => .unsupportedFunction (.nested inner outer)
  | c => .unsupportedOperation (.inProjection c)

/-- An argument of an aggregate must be a leaf. -/
def argument (outer : Aggregate) (e : Expr) : Except CompileError Projection :=
  (e.leaf.mapError (refusedInside outer)).map Leaf.projection

/-- An aggregate needs exactly one argument. -/
def aggregated (function : Aggregate) : List Projection → Except CompileError Projection
  | [p] => .ok (.aggregate function p)
  | args => .error (.unsupportedFunction (.arity function args.length))

/-- An expression as a projection. -/
def direct : Expr → Except CompileError Projection
  | .call f args =>
    match Aggregate.ofFunction? f with
    | none => .error (.unsupportedFunction (.unknown f))
    -- the arguments come first, their number is looked at when the call is left
    | some function => args.mapM (argument function) >>= aggregated function
  | e => (e.leaf.mapError fun c => .unsupportedOperation (.inProjection c)).map Leaf.projection

/-! ## §2 Leaves and refused nodes -/

variable {s : ProjectionCompiler} {e : Expr}

theorem exec_visit_leaf (l : Leaf) (s : ProjectionCompiler) :
    (visit l.callback).exec s = (.ok (), { s with stack := s.stack.push l.projection }) := by
  rcases l with c | (v | ⟨value, type⟩) <;> rfl

/-- A node that is refused where it is entered is refused as a whole. -/
theorem eval_walk_of_refused {c : Construct} {err : CompileError} (hnode : e.leaf = .error c)
    (h : (visit (.enter c)).eval s = .error err) : (e.walk visit).eval s = .error err := by
  obtain ⟨rest, hwalk⟩ := Expr.walk_of_node visit hnode
  rw [hwalk]
  exact Run.eval_bind_error h

theorem exec_openCall_of_unknown {f : FunctionName} (h : Aggregate.ofFunction? f = none) :
    (openCall f).exec s = (.error (.unsupportedFunction (.unknown f)), s) := by
  unfold openCall
  rw [h]
  rfl

theorem exec_openCall {f : FunctionName} {function : Aggregate}
    (h : Aggregate.ofFunction? f = some function) (hcalls : s.calls = []) :
    (openCall f).exec s = (.ok (), { s with calls := [(function, s.stack.size)] }) := by
  unfold openCall
  rw [h]
  simp only
  rw [Run.exec_bind_ok (Run.exec_get s), hcalls]
  rfl

theorem exec_openCall_of_nested {f : FunctionName} {inner outer : Aggregate} {depth : Nat}
    {calls : List (Aggregate × Nat)} (h : Aggregate.ofFunction? f = some inner)
    (hcalls : s.calls = (outer, depth) :: calls) :
    (openCall f).exec s = (.error (.unsupportedFunction (.nested inner outer)), s) := by
  unfold openCall
  rw [h]
  simp only
  rw [Run.exec_bind_ok (Run.exec_get s), hcalls]
  rfl

/-- Inside a call every node is refused. -/
theorem eval_enter_inside {outer : Aggregate} {depth : Nat} (hcalls : s.calls = [(outer, depth)])
    (c : Construct) : (visit (.enter c)).eval s = .error (refusedInside outer c) := by
  cases c with
  | call f =>
    change (openCall f).eval s = _
    cases hf : Aggregate.ofFunction? f with
    | none => rw [Run.eval, exec_openCall_of_unknown hf, refusedInside, hf]
    | some inner => rw [Run.eval, exec_openCall_of_nested hf hcalls, refusedInside, hf]
  | _ => rfl

/-! ## §3 The arguments of a call -/

/-- A step has a given result: on success it adds operands on top, on failure it fails with that
    error. -/
def Yields (step : Run ProjectionCompiler Unit) (s : ProjectionCompiler) :
    Except CompileError (List Projection) → Prop
  | .ok ps => step.exec s = (.ok (), { s with stack := ⟨ps.reverse ++ s.stack.items⟩ })
  | .error err => step.eval s = .error err

theorem walkAll_yields {outer : Aggregate} {depth : Nat} (args : List Expr)
    (hcalls : s.calls = [(outer, depth)]) :
    Yields (Expr.walkAll visit args) s (args.mapM (argument outer)) := by
  induction args generalizing s with
  | nil => rfl
  | cons first rest ih =>
    unfold Expr.walkAll
    rw [List.mapM_cons, argument]
    cases hleaf : first.leaf with
    | error c =>
      exact Run.eval_bind_error (eval_walk_of_refused hleaf (eval_enter_inside hcalls c))
    | ok l =>
      have hfirst : (first.walk visit).exec s =
          (.ok (), { s with stack := s.stack.push l.projection }) := by
        rw [Expr.walk_of_leaf visit hleaf, exec_visit_leaf]
      have hstep : (first.walk visit >>= fun _ => Expr.walkAll visit rest).exec s =
          (Expr.walkAll visit rest).exec { s with stack := s.stack.push l.projection } :=
        Run.exec_bind_ok hfirst
      -- the operands of the rest come on top of the first one
      have hrest := @ih { s with stack := s.stack.push l.projection } hcalls
      change Yields _ _ (rest.mapM (argument outer) >>= fun ps => .ok (l.projection :: ps))
      cases hargs : rest.mapM (argument outer) with
      | error err =>
        rw [hargs] at hrest
        change ((first.walk visit >>= fun _ => Expr.walkAll visit rest).exec s).1 = .error err
        rw [hstep]
        exact hrest
      | ok ps =>
        rw [hargs] at hrest
        have hexec := hstep.trans hrest
        change Yields _ _ (.ok (l.projection :: ps))
        simpa [Yields, OperandStack.push] using hexec

/-! ## §4 Whole expressions -/

/-- A call is closed over the operands that came since it was opened, and is replaced by its
    aggregate, or by nothing if their number is wrong. -/
theorem exec_closeCall (f : FunctionName) (function : Aggregate) (ps below : List Projection)
    (calls : List (Aggregate × Nat)) :
    (closeCall f).exec ⟨⟨ps.reverse ++ below⟩, (function, below.length) :: calls⟩ =
      ((aggregated function ps).map fun _ => (),
        ⟨⟨(aggregated function ps).toOption.toList ++ below⟩, calls⟩) := by
  have hsplit : (⟨ps.reverse ++ below⟩ : OperandStack Projection).splitOff below.length =
      .ok (ps, ⟨below⟩) := by
    have hsize : (⟨ps.reverse ++ below⟩ : OperandStack Projection).size - below.length =
        ps.reverse.length := by
      simp [OperandStack.size]
    rw [OperandStack.splitOff, if_pos (by simp [OperandStack.size]), hsize, List.take_left,
      List.drop_left, List.reverse_reverse]
  have hinternal : ∀ s : ProjectionCompiler,
      (Run.internal ((⟨ps.reverse ++ below⟩ : OperandStack Projection).splitOff below.length)).exec s =
        (.ok (ps, ⟨below⟩), s) := by
    intro s
    rw [Run.exec_internal, hsplit]
    rfl
  unfold closeCall
  rw [Run.exec_bind_ok (Run.exec_get _)]
  simp only
  rw [Run.exec_bind_ok (Run.exec_set _ _), Run.exec_bind_ok (hinternal _)]
  simp only
  rw [Run.exec_bind_ok (Run.exec_set _ _)]
  rcases ps with _ | ⟨p, _ | ⟨q, rest⟩⟩
  · rfl
  · rfl
  · rfl

theorem walk_call (f : FunctionName) (args : List Expr) :
    (Expr.call f args).walk visit =
      openCall f >>= fun _ => Expr.walkAll visit args >>= fun _ => closeCall f :=
  rfl

/-- A call of an aggregate, from its first to its last callback. -/
theorem compileProjection_call {f : FunctionName} {function : Aggregate}
    (h : Aggregate.ofFunction? f = some function) (args : List Expr) :
    compileProjection (.call f args) =
      args.mapM (argument function) >>= aggregated function := by
  have hopen : (openCall f).exec {} = (.ok (), ⟨{}, [(function, 0)]⟩) := exec_openCall h rfl
  have hargs := @walkAll_yields ⟨{}, [(function, 0)]⟩ function 0 args rfl
  unfold compileProjection
  rw [walk_call, Run.exec_bind_ok hopen]
  cases hmapM : args.mapM (argument function) with
  | error err =>
    rw [hmapM] at hargs
    rcases hexec : (Expr.walkAll visit args).exec ⟨{}, [(function, 0)]⟩ with ⟨outcome, s'⟩
    have houtcome : outcome = .error err := by
      have hfst := hargs
      unfold Yields Run.eval at hfst
      rw [hexec] at hfst
      exact hfst
    subst houtcome
    rw [Run.exec_bind, hexec]
    rfl
  | ok ps =>
    rw [hmapM] at hargs
    -- nothing lies below the operands of a call that is the whole expression
    have hexec : (Expr.walkAll visit args).exec ⟨{}, [(function, 0)]⟩ =
        (.ok (), ⟨⟨ps.reverse ++ []⟩, [(function, 0)]⟩) := hargs
    rw [Run.exec_bind_ok hexec]
    have hclose := exec_closeCall f function ps [] []
    rw [List.length_nil] at hclose
    rw [hclose]
    change _ = aggregated function ps
    cases aggregated function ps <;> rfl

end ProjectionCompiler

open ProjectionCompiler

theorem compileProjection_of_leaf {e : Expr} {l : Leaf} (h : e.leaf = .ok l) :
    compileProjection e = .ok l.projection := by
  unfold compileProjection
  rw [Expr.walk_of_leaf visit h, exec_visit_leaf]
  rfl

theorem compileProjection_of_eval_error {e : Expr} {err : CompileError}
    (h : (e.walk visit).eval {} = .error err) : compileProjection e = .error err := by
  unfold compileProjection
  rcases hexec : (e.walk visit).exec {} with ⟨outcome, s'⟩
  rw [Run.eval, hexec] at h
  cases h
  rfl

theorem compileProjection_of_refused {e : Expr} {c : Construct} {err : CompileError}
    (hnode : e.leaf = .error c) (h : (visit (.enter c)).eval {} = .error err) :
    compileProjection e = .error err :=
  compileProjection_of_eval_error (eval_walk_of_refused hnode h)

/-- **The compiler agrees with `direct`**, in results and in errors. -/
theorem compileProjection_eq (e : Expr) : compileProjection e = direct e := by
  cases e with
  | call f args =>
    cases hf : Aggregate.ofFunction? f with
    | none =>
      have hnode : (Expr.call f args).leaf = .error (.call f) := rfl
      rw [compileProjection_of_refused hnode (congrArg Prod.fst (exec_openCall_of_unknown hf)),
        direct, hf]
    | some function => rw [compileProjection_call hf, direct, hf]
  | column c => exact compileProjection_of_leaf rfl
  | «variable» v => exact compileProjection_of_leaf rfl
  | constant value type => exact compileProjection_of_leaf rfl
  -- the other nodes are refused where they are entered
  | _ => exact compileProjection_of_refused rfl rfl

theorem argument_eq_ok {outer : Aggregate} {e : Expr} {p : Projection}
    (h : argument outer e = .ok p) : ∃ l, e.leaf = .ok l ∧ p = l.projection := by
  unfold argument at h
  cases hleaf : e.leaf with
  | error c =>
    rw [hleaf] at h
    cases h
  | ok l =>
    rw [hleaf] at h
    cases h
    exact ⟨l, rfl, rfl⟩

theorem aggregated_eq_ok {function : Aggregate} {ps : List Projection} {p : Projection}
    (h : aggregated function ps = .ok p) : ∃ q, ps = [q] ∧ p = .aggregate function q := by
  match ps with
  | [] => cases h
  | [q] =>
    cases h
    exact ⟨q, rfl, rfl⟩
  | _ :: _ :: _ => cases h

/-- There are as many results as arguments. -/
theorem length_of_mapM_argument {function : Aggregate} {args : List Expr} {ps : List Projection}
    (h : args.mapM (argument function) = .ok ps) : ps.length = args.length := by
  induction args generalizing ps with
  | nil =>
    cases h
    rfl
  | cons first rest ih =>
    rw [List.mapM_cons] at h
    obtain ⟨p, _, h⟩ := Run.bind_eq_ok_iff.1 h
    obtain ⟨others, hrest, h⟩ := Run.bind_eq_ok_iff.1 h
    cases h
    simp [ih hrest]

/-- **What compiles**: a leaf, or an aggregate over one leaf. -/
theorem compileProjection_eq_ok {e : Expr} {p : Projection} (h : compileProjection e = .ok p) :
    (∃ l, e.leaf = .ok l ∧ p = l.projection) ∨
      ∃ f function a l, e = .call f [a] ∧ Aggregate.ofFunction? f = some function ∧
        a.leaf = .ok l ∧ p = .aggregate function l.projection := by
  rw [compileProjection_eq] at h
  cases e with
  | call f args =>
    right
    cases hf : Aggregate.ofFunction? f with
    | none =>
      rw [direct, hf] at h
      cases h
    | some function =>
      rw [direct, hf] at h
      obtain ⟨ps, hargs, haggregated⟩ := Run.bind_eq_ok_iff.1 h
      obtain ⟨q, rfl, rfl⟩ := aggregated_eq_ok haggregated
      -- one result comes from one argument
      obtain ⟨a, rfl⟩ := List.length_eq_one_iff.1 (length_of_mapM_argument hargs).symm
      rw [List.mapM_cons] at hargs
      obtain ⟨q', ha, hrest⟩ := Run.bind_eq_ok_iff.1 hargs
      cases hrest
      obtain ⟨l, hleaf, rfl⟩ := argument_eq_ok ha
      exact ⟨f, function, a, l, rfl, hf, hleaf, rfl⟩
  | column c =>
    cases h
    exact .inl ⟨.column c, rfl, rfl⟩
  | «variable» v =>
    cases h
    exact .inl ⟨.entry (.variable v), rfl, rfl⟩
  | constant value type =>
    cases h
    exact .inl ⟨.entry (.literal value type), rfl, rfl⟩
  | _ => cases h

/-! ## §5 Refusals -/

theorem onlyRefuses_argument (outer : Aggregate) (e : Expr) : OnlyRefuses (argument outer e) := by
  unfold argument
  cases e.leaf with
  | ok l => exact .ok _
  | error c =>
    refine .error ?_
    cases c with
    | call f => cases hf : Aggregate.ofFunction? f <;> simp [refusedInside, hf, CompileError.isRefusal]
    | _ => rfl

theorem onlyRefuses_aggregated (function : Aggregate) (ps : List Projection) :
    OnlyRefuses (aggregated function ps) := by
  match ps with
  | [] => exact .error rfl
  | [_] => exact .ok _
  | _ :: _ :: _ => exact .error rfl

theorem onlyRefuses_compileProjection (e : Expr) : OnlyRefuses (compileProjection e) := by
  rw [compileProjection_eq]
  cases e with
  | call f args =>
    cases hf : Aggregate.ofFunction? f with
    | none =>
      rw [direct, hf]
      exact .error rfl
    | some function =>
      rw [direct, hf]
      exact (OnlyRefuses.mapM (onlyRefuses_argument function) args).bind
        (onlyRefuses_aggregated function)
  | column c => exact .ok _
  | «variable» v => exact .ok _
  | constant value type => exact .ok _
  | _ => exact .error rfl

theorem onlyRefuses_compileKey (e : Expr) : OnlyRefuses (compileKey e) := by
  refine (onlyRefuses_compileProjection e).bind fun p => ?_
  cases p with
  | column field => exact .ok _
  | _ => exact .error rfl

end QueryPipeline
