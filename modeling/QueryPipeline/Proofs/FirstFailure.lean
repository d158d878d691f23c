import QueryPipeline.Proofs.Traversal

/-!
# Traversals up to the first failure

A traversal makes the callbacks of its trace one after the other.  If all of them succeed, so does
the traversal.  Otherwise it ends with the first one that fails: with its error, in the state that it
leaves, and without another callback.

The trace is the same for every visitor, since it can be read off the expression.  The callbacks of a
node stand around those of its operands, and between the two operands of a binary node; a leaf
is announced once, at its place from left to right.

## Main definitions

- `AllPass`: every callback succeeds in the state that those before it leave.
- `StopsAt`: the first callback that fails, and its error.
- `Expr.operands`, `Expr.leaves`: what stands below a node, and at the bottom of a tree.
- `Construct.enclose`: the callbacks of a node, given those of its operands.

## Main statements

- `allPass_or_stopsAt`: callbacks all pass, or there is a first one that fails.
- `exec_forM_of_allPass`, `exec_forM_of_stopsAt`: what making them does in either case.
- `Expr.trace_of_construct`, `Expr.filter_isLeaf_trace`: nodes and leaves in a trace.
- `Expr.walk_executes_trace`: traversals make the callbacks of a trace up to the first failure.
-/

namespace QueryPipeline

/-! ## §1 The first failure -/

section

variable {σ : Type} {visit : Callback → Run σ Unit} {s : σ} {cs before after : List Callback}
  {c : Callback} {err : CompileError}

/-- Every callback succeeds in the state that those before it leave. -/
def AllPass (visit : Callback → Run σ Unit) (s : σ) (cs : List Callback) : Prop :=
  ∀ before c after, cs = before ++ c :: after → (visit c).eval (afterAll visit s before) = .ok ()

/-- **The first callback that fails**, with those before and after it, and its error. -/
structure StopsAt (visit : Callback → Run σ Unit) (s : σ) (cs before : List Callback) (c : Callback)
    (after : List Callback) (err : CompileError) : Prop where
  split : cs = before ++ c :: after
  passed : AllPass visit s before
  fails : (visit c).eval (afterAll visit s before) = .error err

theorem allPass_cons :
    AllPass visit s (c :: cs) ↔
      (visit c).eval s = .ok () ∧ AllPass visit ((visit c).exec s).2 cs := by
  constructor
  · intro h
    refine ⟨h [] c cs rfl, fun before d after hsplit => ?_⟩
    exact h (c :: before) d after (by rw [hsplit]; rfl)
  · -- a callback of the longer list is its first one, or one of the rest
    rintro ⟨hc, hcs⟩ before d after hsplit
    cases before with
    | nil =>
      cases hsplit
      exact hc
    | cons first before =>
      obtain ⟨rfl, hrest⟩ := List.cons.inj hsplit
      exact hcs before d after hrest

/-- What stops later callbacks stops them behind one that passes too. -/
theorem StopsAt.cons {first : Callback} (hfirst : (visit first).eval s = .ok ())
    (h : StopsAt visit ((visit first).exec s).2 cs before c after err) :
    StopsAt visit s (first :: cs) (first :: before) c after err where
  split := by rw [h.split]; rfl
  passed := allPass_cons.2 ⟨hfirst, h.passed⟩
  fails := h.fails

/-- Callbacks all pass, or one of them is the first to fail. -/
theorem allPass_or_stopsAt (visit : Callback → Run σ Unit) (s : σ) (cs : List Callback) :
    AllPass visit s cs ∨ ∃ before c after err, StopsAt visit s cs before c after err := by
  -- for every state, since the later callbacks start where the first one ends
  induction cs generalizing s with
  | nil =>
    left
    intro before c after hsplit
    simp at hsplit
  | cons first rest ih =>
    cases hfirst : (visit first).eval s with
    | error err =>
      refine .inr ⟨[], first, rest, err, rfl, ?_, hfirst⟩
      intro before c after hsplit
      simp at hsplit
    | ok a =>
      refine (ih ((visit first).exec s).2).imp (fun hrest => allPass_cons.2 ⟨hfirst, hrest⟩) ?_
      rintro ⟨before, c, after, err, hstops⟩
      exact ⟨first :: before, c, after, err, hstops.cons hfirst⟩

/-- Callbacks that all pass leave what they leave one by one. -/
theorem exec_forM_of_allPass (h : AllPass visit s cs) :
    (cs.forM visit).exec s = (.ok (), afterAll visit s cs) := by
  induction cs generalizing s with
  | nil => rfl
  | cons c rest ih =>
    obtain ⟨hc, hrest⟩ := allPass_cons.1 h
    have hexec : (visit c).exec s = (.ok (), ((visit c).exec s).2) := Prod.ext hc rfl
    exact (Run.exec_bind_ok hexec).trans (ih hrest)

/-- Callbacks that do not all pass end with the first failure, in the state that it leaves. -/
theorem exec_forM_of_stopsAt (h : StopsAt visit s cs before c after err) :
    (cs.forM visit).exec s = (.error err, afterAll visit s (before ++ [c])) := by
  have hexec : (visit c).exec (afterAll visit s before) =
      (.error err, afterAll visit s (before ++ [c])) :=
    Prod.ext h.fails (afterAll_concat before c).symm
  -- those before it pass, so the run gets to it, and no further
  rw [h.split, Expr.forM_append_cons, Run.exec_bind_ok (exec_forM_of_allPass h.passed),
    Run.exec_bind_error hexec]

end

/-! ## §2 Nodes in a trace -/

/-- Constructs with a left and a right operand. -/
def Construct.isBinary : Construct → Bool
  | and => true
  | or => true
  | compare _ => true
  | arithmetic _ => true
  | not => false
  | isNull => false
  | member _ => false
  | call _ => false

/-- What is announced between one operand and the next. -/
def Construct.separator (c : Construct) : List Callback :=
  if c.isBinary then [.between c] else []

/-- The callbacks of a node, given those of its operands. -/
def Construct.enclose (c : Construct) (operands : List (List Callback)) : List Callback :=
  .enter c :: c.separator.intercalate operands ++ [.leave c]

namespace Construct

variable {c : Construct}

theorem enclose_pair (h : c.isBinary = true) (a b : List Callback) :
    c.enclose [a, b] = .enter c :: a ++ .between c :: b ++ [.leave c] := by
  simp [enclose, separator, h]

theorem enclose_of_not_binary (h : c.isBinary = false) (operands : List (List Callback)) :
    c.enclose operands = .enter c :: operands.flatten ++ [.leave c] := by
  have hflatten : ([] : List Callback).intercalate operands = operands.flatten := by
    induction operands with
    | nil => rfl
    | cons first rest ih =>
      cases rest with
      | nil => simp
      | cons second rest =>
        rw [List.intercalate_cons_cons, ih, List.append_nil]
        rfl
  rw [enclose, separator, h, if_neg Bool.false_ne_true, hflatten]

/-- The leaves in the callbacks of a node are those of its operands. -/
theorem filter_isLeaf_enclose (c : Construct) (operands : List (List Callback)) :
    (c.enclose operands).filter Callback.isLeaf = operands.flatMap (List.filter Callback.isLeaf) := by
  have hseparator : c.separator.filter Callback.isLeaf = [] := by
    unfold separator
    split <;> rfl
  have hbody : (c.separator.intercalate operands).filter Callback.isLeaf =
      operands.flatMap (List.filter Callback.isLeaf) := by
    induction operands with
    | nil => rfl
    | cons first rest ih =>
      cases rest with
      | nil => simp
      | cons second rest =>
        rw [List.intercalate_cons_cons, List.filter_append, List.filter_append, hseparator, ih,
          List.append_nil]
        rfl
  simp [enclose, hbody, Callback.isLeaf]

end Construct

namespace Expr

/-- The operands of a node, from left to right. -/
def operands : Expr → List Expr
  | .and l r => [l, r]
  | .or l r => [l, r]
  | .not e => [e]
  | .compare _ l r => [l, r]
  | .isNull e => [e]
  | .member e _ => [e]
  | .arithmetic _ l r => [l, r]
  | .call _ args => args
  | .column _ => []
  | .variable _ => []
  | .constant _ _ => []

theorem traceAll_eq_flatten (args : List Expr) : traceAll args = (args.map trace).flatten := by
  induction args with
  | nil => rfl
  | cons first rest ih => rw [traceAll, ih, List.map_cons, List.flatten_cons]

/-- **The callbacks of a node** stand around those of its operands. -/
theorem trace_of_construct {e : Expr} {c : Construct} (h : e.leaf = .error c) :
    e.trace = c.enclose (e.operands.map trace) := by
  cases e with
  | and l r | or l r | compare op l r | arithmetic op l r =>
    cases h
    exact (Construct.enclose_pair rfl l.trace r.trace).symm
  | not e | isNull e | member e source =>
    cases h
    rw [Construct.enclose_of_not_binary rfl]
    simp [trace, operands]
  | call f args =>
    -- a call with two arguments is no binary node, so nothing is announced between them
    cases h
    rw [Construct.enclose_of_not_binary rfl, trace, traceAll_eq_flatten]
    rfl
  | column c | «variable» v | constant value type => cases h

/-! ## §3 Leaves in a trace -/

mutual

/-- The leaves of an expression, from left to right. -/
def leaves : Expr → List Leaf
  | .and l r => l.leaves ++ r.leaves
  | .or l r => l.leaves ++ r.leaves
  | .not e => e.leaves
  | .compare _ l r => l.leaves ++ r.leaves
  | .isNull e => e.leaves
  | .member e _ => e.leaves
  | .arithmetic _ l r => l.leaves ++ r.leaves
  | .call _ args => leavesAll args
  | .column c => [.column c]
  | .variable v => [.entry (.variable v)]
  | .constant value type => [.entry (.literal value type)]

/-- The leaves of the arguments of a call, one argument after the other. -/
def leavesAll : List Expr → List Leaf
  | [] => []
  | e :: rest => e.leaves ++ leavesAll rest

end

variable {e : Expr}

theorem leaves_of_leaf {l : Leaf} (h : e.leaf = .ok l) : e.leaves = [l] := by
  cases e <;> cases h <;> rfl

theorem leaves_of_construct {c : Construct} (h : e.leaf = .error c) :
    e.leaves = e.operands.flatMap leaves := by
  have hall : ∀ args : List Expr, leavesAll args = args.flatMap leaves := by
    intro args
    induction args with
    | nil => rfl
    | cons first rest ih => rw [leavesAll, ih, List.flatMap_cons]
  cases e with
  | and l r | or l r | compare op l r | arithmetic op l r => simp [leaves, operands]
  | not e | isNull e | member e source => simp [leaves, operands]
  | call f args => exact hall args
  | column c | «variable» v | constant value type => cases h

/-- Induction over expressions, from the operands of a node to the node. -/
theorem operands_induction {motive : Expr → Prop}
    (step : ∀ e : Expr, (∀ a ∈ e.operands, motive a) → motive e) (e : Expr) : motive e := by
  induction e with
  | and l r ihl ihr | or l r ihl ihr => exact step _ (by simp [operands, ihl, ihr])
  | compare op l r ihl ihr | arithmetic op l r ihl ihr => exact step _ (by simp [operands, ihl, ihr])
  | not e ih | isNull e ih | member e source ih => exact step _ (by simp [operands, ih])
  | call f args ih => exact step _ ih
  | column c => exact step _ (by simp [operands])
  | var v => exact step _ (by simp [operands])
  | constant value type => exact step _ (by simp [operands])

/-- **The leaves in a trace** are those of the expression, from left to right. -/
theorem filter_isLeaf_trace (e : Expr) :
    e.trace.filter Callback.isLeaf = e.leaves.map Leaf.callback := by
  induction e using operands_induction with
  | step e ih =>
    cases h : e.leaf with
    | ok l =>
      have hleaf : l.callback.isLeaf = true := by rcases l with _ | (_ | _) <;> rfl
      rw [trace_of_leaf h, leaves_of_leaf h, List.filter_cons_of_pos hleaf]
      rfl
    | error c =>
      -- the callbacks of the node itself drop out, and each operand brings its own leaves
      rw [trace_of_construct h, leaves_of_construct h, Construct.filter_isLeaf_enclose,
        List.flatMap_map, List.map_flatMap, List.flatMap_def, List.map_congr_left ih]
      rfl

/-! ## §4 Traversals -/

/-- **A traversal makes the callbacks of the trace up to the first failure.**  Whatever the visitor is:

    - if every callback of the trace passes, the traversal succeeds, makes all of them, and leaves the
      state that they leave;
    - otherwise it makes those up to the first one that fails, gives the error of that one, and leaves
      the state that it leaves.

    The trace depends on the expression only.  A leaf is announced once.  The callbacks of a node are
    one before its operands, those of the operands from left to right, with one between the operands of
    a binary node, and one at the end.  So the leaves come from left to right, each exactly once. -/
theorem walk_executes_trace (e : Expr) :
    (∀ (σ : Type) (visit : Callback → Run σ Unit) (s : σ),
      AllPass visit s e.trace ∧ (e.walk visit).exec s = (.ok (), afterAll visit s e.trace) ∧
          e.issued visit s = e.trace ∨
        ∃ before c after err, StopsAt visit s e.trace before c after err ∧
          (e.walk visit).exec s = (.error err, afterAll visit s (before ++ [c])) ∧
          e.issued visit s = before ++ [c]) ∧
    (∀ l, e.leaf = .ok l → e.trace = [l.callback]) ∧
    (∀ c, e.leaf = .error c → e.trace = c.enclose (e.operands.map trace)) ∧
    e.trace.filter Callback.isLeaf = e.leaves.map Leaf.callback := by
  refine ⟨fun σ visit s => ?_, fun _ => trace_of_leaf, fun _ => trace_of_construct,
    filter_isLeaf_trace e⟩
  rcases allPass_or_stopsAt visit s e.trace with hpass | ⟨before, c, after, err, hstops⟩
  · have hexec := exec_forM_of_allPass hpass
    refine .inl ⟨hpass, ?_, ?_⟩
    · rw [walk_eq_forM_trace, hexec]
    · rw [issued, walk_eq_forM_trace, exec_forM_recording hexec]
      rfl
  · refine .inr ⟨before, c, after, err, hstops, ?_, ?_⟩
    · rw [walk_eq_forM_trace, exec_forM_of_stopsAt hstops]
    · exact issued_of_stop hstops.split (exec_forM_of_allPass hstops.passed) hstops.fails

/-- A visitor that counts its callbacks and fails at the fourth one. -/
def failingAtFourth : Callback → Run Nat Unit := fun _ => do
  modify (· + 1)
  if (← get) = 4 then throw (.internal .stackEmpty)

/-- A comparison with a call, which is entered with the fourth callback. -/
def comparisonWithCall : Expr :=
  .compare .lt (.column { field := "price", type := .int })
    (.call { name := "f" } [.ofValue (.int 1), .ofValue (.int 2)])

/-- The call is the first to fail, and neither of its arguments is announced. -/
theorem walk_failingAtFourth :
    ∃ before after, StopsAt failingAtFourth 0 comparisonWithCall.trace before
        (.enter (.call { name := "f" })) after (.internal .stackEmpty) ∧
      (comparisonWithCall.walk failingAtFourth).exec 0 = (.error (.internal .stackEmpty), 4) ∧
      comparisonWithCall.issued failingAtFourth 0 =
        before ++ [.enter (.call { name := "f" })] ∧ before.length = 3 := by
  rcases (walk_executes_trace comparisonWithCall).1 Nat failingAtFourth 0 with
    ⟨_, hexec, _⟩ | ⟨before, c, after, err, hstops, hexec, hissued⟩
  · cases hexec
  · have hcalls : comparisonWithCall.issued failingAtFourth 0 =
        [.enter (.compare .lt), .column { field := "price", type := .int }, .between (.compare .lt)]
          ++ [.enter (.call { name := "f" })] := rfl
    obtain ⟨rfl, hc⟩ := List.append_inj' (hissued.symm.trans hcalls) rfl
    cases hc
    cases hexec
    exact ⟨_, after, hstops, rfl, hissued, rfl⟩

end Expr

end QueryPipeline
