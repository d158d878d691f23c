import QueryPipeline.Proofs.Leaves
import QueryPipeline.Run

/-!
# What a traversal tells about an expression

A traversal makes the callbacks of a trace, one after the other.  So whoever only sees the callbacks
knows the expression, and knows it as soon as the last callback has come: where the arguments of a
call end, and where an operand does, can be read off the callbacks that have been made by then.

## Main definitions

- `recording`: a visitor that keeps a record of the callbacks it gets.
- `Expr.issued`: the callbacks that a traversal makes to a visitor.
- `afterAll`: what is left of a state after any callbacks, in any order.

## Main statements

- `Expr.walk_eq_forM_trace`: a traversal makes the callbacks of the trace.
- `Expr.endsItself`: no trace is the beginning of another one.
- `Expr.issued_isPrefix_iff`: the callbacks of a traversal determine its expression.
-/

namespace QueryPipeline

/-! ## §1 Traversals follow traces -/

namespace Expr

variable {m : Type → Type} [Monad m] [LawfulMonad m] (visit : Callback → m Unit)

theorem around_eq_forM {operands : m Unit} {body : List Callback} (c : Construct)
    (h : operands = body.forM visit) :
    around visit c operands = (Callback.enter c :: body ++ [Callback.leave c]).forM visit := by
  subst h
  simp [around]

theorem aroundTwo_eq_forM {left right : m Unit} {a b : List Callback} (c : Construct)
    (hleft : left = a.forM visit) (hright : right = b.forM visit) :
    aroundTwo visit c left right =
      (Callback.enter c :: a ++ Callback.between c :: b ++ [Callback.leave c]).forM visit := by
  subst hleft hright
  simp [aroundTwo, around]

/-- **A traversal makes the callbacks of the trace**, whatever the visitor does with them. -/
theorem walk_eq_forM_trace (e : Expr) : e.walk visit = e.trace.forM visit := by
  induction e with
  | and l r ihl ihr => exact aroundTwo_eq_forM visit .and ihl ihr
  | or l r ihl ihr => exact aroundTwo_eq_forM visit .or ihl ihr
  | not e ih => exact around_eq_forM visit .not ih
  | compare op l r ihl ihr => exact aroundTwo_eq_forM visit (.compare op) ihl ihr
  | isNull e ih => exact around_eq_forM visit .isNull ih
  | member e source ih => exact around_eq_forM visit (.member source) ih
  | arithmetic op l r ihl ihr => exact aroundTwo_eq_forM visit (.arithmetic op) ihl ihr
  | call f args ih =>
    apply around_eq_forM visit (.call f)
    -- the arguments are visited one after the other
    induction args with
    | nil => simp [walkAll, traceAll]
    | cons first rest ihrest =>
      obtain ⟨hfirst, hrest⟩ := List.forall_mem_cons.1 ih
      simp [walkAll, traceAll, hfirst, ihrest hrest]
  | column c => simp [walk, trace]
  | var v => simp [walk, trace]
  | constant value type => simp [walk, trace]

/-- Callbacks with one of them told apart from those before and after it. -/
theorem forM_append_cons (before : List Callback) (c : Callback) (after : List Callback) :
    (before ++ c :: after).forM visit =
      before.forM visit >>= fun _ => visit c >>= fun _ => after.forM visit := by
  simp

end Expr

/-! ## §2 Records of callbacks -/

section

variable {σ : Type}

/-- A visitor that acts as another one does and keeps a record of the callbacks it gets. -/
def recording (visit : Callback → Run σ Unit) (c : Callback) : Run (List Callback × σ) Unit := do
  let (record, s) ← get
  let (outcome, s) := (visit c).exec s
  set (record ++ [c], s)
  Run.lift outcome

/-- Visitors whose callbacks succeed in every state. -/
def NeverFails (visit : Callback → Run σ Unit) : Prop :=
  ∀ c s, (visit c).eval s = .ok ()

/-- The callbacks that a traversal makes to a visitor. -/
def Expr.issued (visit : Callback → Run σ Unit) (s : σ) (e : Expr) : List Callback :=
  ((e.walk (recording visit)).exec ([], s)).2.1

variable {visit : Callback → Run σ Unit}

theorem exec_recording (c : Callback) (record : List Callback) (s : σ) :
    (recording visit c).exec (record, s) =
      (((visit c).exec s).1, record ++ [c], ((visit c).exec s).2) := by
  unfold recording
  rw [Run.exec_bind_ok (Run.exec_get _)]
  simp only
  rw [Run.exec_bind_ok (Run.exec_set _ _), Run.exec_lift]

/-- Callbacks that all succeed are all recorded. -/
theorem exec_forM_recording {cs : List Callback} {s s' : σ}
    (h : (cs.forM visit).exec s = (.ok (), s')) (record : List Callback) :
    (cs.forM (recording visit)).exec (record, s) = (.ok (), record ++ cs, s') := by
  induction cs generalizing record s with
  | nil =>
    cases h
    rw [List.append_nil]
    rfl
  | cons c cs ih =>
    have hrecord := @exec_recording σ visit c record s
    change (visit c >>= fun _ => cs.forM visit).exec s = _ at h
    show (recording visit c >>= fun _ => cs.forM (recording visit)).exec (record, s) = _
    rcases hc : (visit c).exec s with ⟨_ | ⟨⟩, t⟩
    · rw [Run.exec_bind_error hc] at h
      cases h
    · rw [Run.exec_bind_ok hc] at h
      rw [hc] at hrecord
      rw [Run.exec_bind_ok hrecord, ih h, List.append_assoc]
      rfl

theorem NeverFails.exec_forM (h : NeverFails visit) (cs : List Callback) (s : σ) :
    ∃ s', (cs.forM visit).exec s = (.ok (), s') := by
  induction cs generalizing s with
  | nil => exact ⟨s, rfl⟩
  | cons c cs ih =>
    have hc : (visit c).exec s = (.ok (), ((visit c).exec s).2) :=
      Prod.ext (h c s) rfl
    obtain ⟨s', hrest⟩ := ih ((visit c).exec s).2
    exact ⟨s', (Run.exec_bind_ok hc).trans hrest⟩

/-- A visitor that never fails gets the whole trace. -/
theorem Expr.issued_eq_trace (h : NeverFails visit) (s : σ) (e : Expr) :
    e.issued visit s = e.trace := by
  obtain ⟨s', hexec⟩ := h.exec_forM e.trace s
  rw [issued, walk_eq_forM_trace, exec_forM_recording hexec []]
  rfl

section

variable {before after : List Callback} {c : Callback} {s s' : σ} {err : CompileError} {e : Expr}
  (htrace : e.trace = before ++ c :: after) (hbefore : (before.forM visit).exec s = (.ok (), s'))
  (hc : (visit c).eval s' = .error err)

include htrace hbefore hc

/-- A traversal fails with the first callback that does. -/
theorem Expr.eval_walk_of_stop : (e.walk visit).eval s = .error err := by
  rw [walk_eq_forM_trace, htrace, forM_append_cons, Run.eval, Run.exec_bind_ok hbefore]
  exact Run.eval_bind_error hc

/-- **The callbacks of a traversal that fails** end with the one that failed. -/
theorem Expr.issued_of_stop : e.issued visit s = before ++ [c] := by
  have hrecord := @exec_recording σ visit c before s'
  have houtcome : ((visit c).exec s').1 = .error err := hc
  rw [houtcome] at hrecord
  rw [issued, walk_eq_forM_trace, htrace, forM_append_cons,
    Run.exec_bind_ok (exec_forM_recording hbefore []), List.nil_append, Run.exec_bind_error hrecord]

end

end

namespace Expr

/-! ## §3 How a trace starts -/

variable {e e' : Expr}

theorem trace_of_leaf {l : Leaf} (h : e.leaf = .ok l) : e.trace = [l.callback] := by
  cases e <;> cases h <;> rfl

theorem trace_of_node {c : Construct} (h : e.leaf = .error c) :
    ∃ rest, e.trace = .enter c :: rest := by
  cases e <;> cases h <;> exact ⟨_, rfl⟩

/-- How an expression is announced. -/
def announcement (e : Expr) : Callback :=
  match e.leaf with
  | .ok l => l.callback
  | .error c => .enter c

theorem exists_trace_eq_cons (e : Expr) : ∃ rest, e.trace = e.announcement :: rest := by
  unfold announcement
  cases h : e.leaf with
  | ok l => exact ⟨[], trace_of_leaf h⟩
  | error c => exact trace_of_node h

theorem announcement_ne_leave (e : Expr) (c : Construct) : e.announcement ≠ .leave c := by
  unfold announcement
  rcases e.leaf with c' | (_ | (_ | _)) <;> exact nofun

/-- The announcement tells a leaf, or the head of a node. -/
theorem leaf_eq_of_announcement_eq (h : e.announcement = e'.announcement) : e.leaf = e'.leaf := by
  unfold announcement at h
  rcases hleaf : e.leaf with c | (_ | (_ | _)) <;> rcases hleaf' : e'.leaf with c' | (_ | (_ | _)) <;>
    rw [hleaf, hleaf'] at h <;> cases h <;> rfl

/-! ## §4 Where a trace ends -/

/-- Whatever follows it, the trace of `e` is taken for the trace of no other expression. -/
def EndsItself (e : Expr) : Prop :=
  ∀ {e' : Expr} {rest rest' : List Callback}, e.trace ++ rest = e'.trace ++ rest' →
    e = e' ∧ rest = rest'

/-- Only expressions that are announced alike have to be compared. -/
theorem endsItself_of_leaf_eq
    (h : ∀ e' rest rest', e'.leaf = e.leaf → e.trace ++ rest = e'.trace ++ rest' →
      e = e' ∧ rest = rest') : e.EndsItself := by
  intro e' rest rest' htrace
  obtain ⟨a, ha⟩ := exists_trace_eq_cons e
  obtain ⟨b, hb⟩ := exists_trace_eq_cons e'
  have hcons := htrace
  rw [ha, hb] at hcons
  exact h e' rest rest' (leaf_eq_of_announcement_eq (List.cons.inj hcons).1.symm) htrace

section

variable {c : Construct} {rest rest' : List Callback}

theorem aroundTwo_inj {l r l' r' : Expr} (hl : l.EndsItself) (hr : r.EndsItself)
    (h : Callback.enter c :: l.trace ++ .between c :: r.trace ++ [.leave c] ++ rest =
      Callback.enter c :: l'.trace ++ .between c :: r'.trace ++ [.leave c] ++ rest') :
    l = l' ∧ r = r' ∧ rest = rest' := by
  simp only [List.cons_append, List.append_assoc, List.cons.injEq, true_and] at h
  obtain ⟨rfl, hright⟩ := hl h
  obtain ⟨rfl, hleave⟩ := hr (List.cons.inj hright).2
  exact ⟨rfl, rfl, (List.cons.inj hleave).2⟩

theorem around_inj {a a' : Expr} (ha : a.EndsItself)
    (h : Callback.enter c :: a.trace ++ [.leave c] ++ rest =
      Callback.enter c :: a'.trace ++ [.leave c] ++ rest') :
    a = a' ∧ rest = rest' := by
  simp only [List.cons_append, List.append_assoc, List.cons.injEq, true_and] at h
  obtain ⟨rfl, hleave⟩ := ha h
  exact ⟨rfl, (List.cons.inj hleave).2⟩

/-- The arguments of a call end where the call is left, for no argument starts with that. -/
theorem traceAll_inj {args args' : List Expr} (hargs : ∀ a ∈ args, a.EndsItself)
    (h : traceAll args ++ .leave c :: rest = traceAll args' ++ .leave c :: rest') :
    args = args' ∧ rest = rest' := by
  induction args generalizing args' with
  | nil =>
    cases args' with
    | nil => exact ⟨rfl, (List.cons.inj h).2⟩
    | cons first' others' =>
      obtain ⟨tail, htail⟩ := exists_trace_eq_cons first'
      rw [traceAll, traceAll, htail] at h
      exact absurd (List.cons.inj h).1.symm (announcement_ne_leave first' c)
  | cons first others ih =>
    obtain ⟨hfirst, hothers⟩ := List.forall_mem_cons.1 hargs
    cases args' with
    | nil =>
      obtain ⟨tail, htail⟩ := exists_trace_eq_cons first
      rw [traceAll, traceAll, htail] at h
      exact absurd (List.cons.inj h).1 (announcement_ne_leave first c)
    | cons first' others' =>
      rw [traceAll, traceAll, List.append_assoc, List.append_assoc] at h
      obtain ⟨rfl, htail⟩ := hfirst h
      obtain ⟨rfl, hrest⟩ := ih hothers htail
      exact ⟨rfl, hrest⟩

end

/-- **No trace is the beginning of another one.** -/
theorem endsItself (e : Expr) : e.EndsItself := by
  -- the other expression is of the same kind, so that their operands can be compared
  induction e with
  | and l r ihl ihr =>
    refine endsItself_of_leaf_eq fun e' rest rest' hleaf h => ?_
    cases e' <;> cases hleaf
    obtain ⟨rfl, rfl, hrest⟩ := aroundTwo_inj ihl ihr h
    exact ⟨rfl, hrest⟩
  | or l r ihl ihr =>
    refine endsItself_of_leaf_eq fun e' rest rest' hleaf h => ?_
    cases e' <;> cases hleaf
    obtain ⟨rfl, rfl, hrest⟩ := aroundTwo_inj ihl ihr h
    exact ⟨rfl, hrest⟩
  | not e ih =>
    refine endsItself_of_leaf_eq fun e' rest rest' hleaf h => ?_
    cases e' <;> cases hleaf
    obtain ⟨rfl, hrest⟩ := around_inj ih h
    exact ⟨rfl, hrest⟩
  | compare op l r ihl ihr =>
    refine endsItself_of_leaf_eq fun e' rest rest' hleaf h => ?_
    cases e' <;> cases hleaf
    obtain ⟨rfl, rfl, hrest⟩ := aroundTwo_inj ihl ihr h
    exact ⟨rfl, hrest⟩
  | isNull e ih =>
    refine endsItself_of_leaf_eq fun e' rest rest' hleaf h => ?_
    cases e' <;> cases hleaf
    obtain ⟨rfl, hrest⟩ := around_inj ih h
    exact ⟨rfl, hrest⟩
  | member e source ih =>
    refine endsItself_of_leaf_eq fun e' rest rest' hleaf h => ?_
    cases e' <;> cases hleaf
    obtain ⟨rfl, hrest⟩ := around_inj ih h
    exact ⟨rfl, hrest⟩
  | arithmetic op l r ihl ihr =>
    refine endsItself_of_leaf_eq fun e' rest rest' hleaf h => ?_
    cases e' <;> cases hleaf
    obtain ⟨rfl, rfl, hrest⟩ := aroundTwo_inj ihl ihr h
    exact ⟨rfl, hrest⟩
  | call f args ih =>
    refine endsItself_of_leaf_eq fun e' rest rest' hleaf h => ?_
    cases e' <;> cases hleaf
    simp only [trace, List.cons_append, List.append_assoc, List.cons.injEq, true_and] at h
    obtain ⟨rfl, hrest⟩ := traceAll_inj ih h
    exact ⟨rfl, hrest⟩
  | column c =>
    refine endsItself_of_leaf_eq fun e' rest rest' hleaf h => ?_
    cases e' <;> cases hleaf
    exact ⟨rfl, (List.cons.inj h).2⟩
  | var v =>
    refine endsItself_of_leaf_eq fun e' rest rest' hleaf h => ?_
    cases e' <;> cases hleaf
    exact ⟨rfl, (List.cons.inj h).2⟩
  | constant value type =>
    refine endsItself_of_leaf_eq fun e' rest rest' hleaf h => ?_
    cases e' <;> cases hleaf
    exact ⟨rfl, (List.cons.inj h).2⟩

/-- **The callbacks of a traversal determine its expression**, as soon as the last one has been made:
    if what one visitor is told is the beginning of what another one is told, and neither ever fails,
    both were told of the same expression. -/
theorem issued_isPrefix_iff {σ τ : Type} {visit : Callback → Run σ Unit}
    {visit' : Callback → Run τ Unit} (h : NeverFails visit) (h' : NeverFails visit') (s : σ) (t : τ)
    (e e' : Expr) : e.issued visit s <+: e'.issued visit' t ↔ e = e' := by
  rw [issued_eq_trace h, issued_eq_trace h']
  constructor
  · rintro ⟨rest, hrest⟩
    exact (endsItself e (hrest.trans (List.append_nil _).symm)).1
  · rintro rfl
    exact List.prefix_rfl

/-- A visitor that counts its callbacks. -/
def counting : Callback → Run Nat Unit :=
  fun _ => modify (· + 1)

/-- Two nested calls that differ only in where the inner one ends. -/
theorem issued_counting_nestedCalls :
    ¬ (Expr.call { name := "f" } [.call { name := "g" } [.ofValue (.int 1)], .ofValue (.int 2)]).issued
        counting 0 <+:
      (Expr.call { name := "f" } [.call { name := "g" } [.ofValue (.int 1), .ofValue (.int 2)]]).issued
        counting 7 := by
  have hcounting : NeverFails counting := fun _ _ => rfl
  rw [issued_isPrefix_iff hcounting hcounting]
  simp

end Expr

/-! ## §5 Callbacks in any order -/

section

variable {σ : Type} {visit : Callback → Run σ Unit} {s : σ}

/-- The state that callbacks leave behind, made one after the other whatever becomes of them. -/
def afterAll (visit : Callback → Run σ Unit) (s : σ) (cs : List Callback) : σ :=
  cs.foldl (fun s c => ((visit c).exec s).2) s

theorem afterAll_concat (cs : List Callback) (c : Callback) :
    afterAll visit s (cs ++ [c]) = ((visit c).exec (afterAll visit s cs)).2 := by
  rw [afterAll, List.foldl_append]
  rfl

/-- What holds at first and is kept by every callback holds after any callbacks.  It may be told of
    the callbacks that have been made as well as of the state. -/
theorem afterAll_induction {motive : List Callback → σ → Prop} (hstart : motive [] s)
    (hstep : ∀ past c, motive past (afterAll visit s past) →
      motive (past ++ [c]) ((visit c).exec (afterAll visit s past)).2)
    (cs : List Callback) : motive cs (afterAll visit s cs) := by
  -- the latest callback first
  rw [← cs.reverse_reverse]
  induction cs.reverse with
  | nil => exact hstart
  | cons c latest ih =>
    rw [List.reverse_cons, afterAll_concat]
    exact hstep _ c ih

end

end QueryPipeline
