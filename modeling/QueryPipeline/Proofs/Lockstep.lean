import QueryPipeline.Proofs.Traversal

/-!
# Traversals side by side

Two runs of a compiler can be compared callback by callback: as long as every callback has the same
outcome in both of them and leaves states that still correspond, the runs end alike.  Expressions that
differ in their leaves only are compared in this way too, for their callbacks come in the same order.

A visitor that refuses some callbacks goes as the visitor it is made from up to the first callback that
is refused, and never gets past that one.

## Main definitions

- `GoAlike`: steps that do the same to corresponding states.
- `GetsTo`, `Expr.Reaches`: callbacks before which nothing fails.
- `refusing`: a visitor that refuses some callbacks.
- `Relabeling`, `Expr.relabel`: other columns and constants at the leaves of an expression.

## Main statements

- `GoAlike.walk`: traversals whose callbacks go alike go alike.
- `exec_walk_refusing`, `eval_walk_refusing`: when refusals change a traversal, and to what.
- `eval_forM_ne_error`: errors that no callback gives.
- `Expr.walk_relabel`: a relabeled expression is traversed with relabeled callbacks.
-/

namespace QueryPipeline

/-! ## §1 Corresponding states -/

section

variable {σ τ : Type} {related : σ → τ → Prop}

/-- Two steps that have the same outcome in related states, and leave related states behind. -/
def GoAlike (related : σ → τ → Prop) (step : Run σ Unit) (step' : Run τ Unit) : Prop :=
  ∀ s t, related s t →
    (step.exec s).1 = (step'.exec t).1 ∧ related (step.exec s).2 (step'.exec t).2

theorem GoAlike.bind {first next : Run σ Unit} {first' next' : Run τ Unit}
    (h : GoAlike related first first') (hnext : GoAlike related next next') :
    GoAlike related (first >>= fun _ => next) (first' >>= fun _ => next') := by
  intro s t hst
  obtain ⟨houtcome, hrelated⟩ := h s t hst
  rw [Run.exec_bind, Run.exec_bind]
  rcases hs : first.exec s with ⟨outcome, s'⟩
  rcases ht : first'.exec t with ⟨outcome', t'⟩
  rw [hs, ht] at houtcome hrelated
  -- the outcome is the same, so both stop here or both go on
  cases houtcome
  cases outcome with
  | error err => exact ⟨rfl, hrelated⟩
  | ok a => exact hnext s' t' hrelated

variable {visit : Callback → Run σ Unit} {visit' : Callback → Run τ Unit}

theorem GoAlike.forM {cs : List Callback} (h : ∀ c ∈ cs, GoAlike related (visit c) (visit' c)) :
    GoAlike related (cs.forM visit) (cs.forM visit') := by
  induction cs with
  | nil => exact fun s t hst => ⟨rfl, hst⟩
  | cons c cs ih =>
    obtain ⟨hc, hcs⟩ := List.forall_mem_cons.1 h
    exact hc.bind (ih hcs)

/-- **Traversals whose callbacks go alike go alike.** -/
theorem GoAlike.walk {e : Expr} (h : ∀ c ∈ e.trace, GoAlike related (visit c) (visit' c)) :
    GoAlike related (e.walk visit) (e.walk visit') := by
  rw [Expr.walk_eq_forM_trace, Expr.walk_eq_forM_trace]
  exact .forM h

end

/-! ## §2 Visitors that refuse -/

section

variable {σ : Type} {visit : Callback → Run σ Unit} {s s' : σ} {cs : List Callback} {c : Callback}

/-- Among callbacks made one after the other one is got to: all those before it succeed. -/
def GetsTo (visit : Callback → Run σ Unit) (s : σ) (cs : List Callback) (c : Callback) : Prop :=
  ∃ before after s', cs = before ++ c :: after ∧ (before.forM visit).exec s = (.ok (), s')

/-- A traversal reaches a callback: all callbacks before it succeed. -/
def Expr.Reaches (visit : Callback → Run σ Unit) (s : σ) (e : Expr) (c : Callback) : Prop :=
  GetsTo visit s e.trace c

theorem getsTo_head (rest : List Callback) : GetsTo visit s (c :: rest) c :=
  ⟨[], rest, s, rfl, rfl⟩

theorem GetsTo.cons {first : Callback} {rest : List Callback} (h : GetsTo visit s' rest c)
    (hfirst : (visit first).exec s = (.ok (), s')) : GetsTo visit s (first :: rest) c := by
  obtain ⟨before, after, t, rfl, hbefore⟩ := h
  exact ⟨first :: before, after, t, rfl, (Run.exec_bind_ok hfirst).trans hbefore⟩

/-- Where nothing fails, every callback is got to. -/
theorem getsTo_iff_mem (h : (cs.forM visit).exec s = (.ok (), s')) :
    GetsTo visit s cs c ↔ c ∈ cs := by
  constructor
  · rintro ⟨before, after, _, rfl, _⟩
    exact List.mem_append_right _ List.mem_cons_self
  · intro hc
    obtain ⟨before, after, rfl⟩ := List.append_of_mem hc
    rw [Expr.forM_append_cons] at h
    rcases hbefore : (before.forM visit).exec s with ⟨_ | ⟨⟩, t⟩
    -- a failure before the callback would have ended the run
    · rw [Run.exec_bind_error hbefore] at h
      cases h
    · exact ⟨before, after, t, rfl, hbefore⟩

/-- An error that no callback gives, in any state that a run can get to, is not given by the run. -/
theorem eval_forM_ne_error {err : CompileError} {inv : σ → Prop}
    (h : ∀ c s, inv s → (visit c).eval s ≠ .error err ∧ inv ((visit c).exec s).2) (hs : inv s)
    (cs : List Callback) : (cs.forM visit).eval s ≠ .error err := by
  induction cs generalizing s with
  | nil =>
    intro herr
    cases herr
  | cons c rest ih =>
    obtain ⟨hc, hinv⟩ := h c s hs
    show (visit c >>= fun _ => rest.forM visit).eval s ≠ .error err
    unfold Run.eval at hc ih ⊢
    rw [Run.exec_bind]
    rcases hexec : (visit c).exec s with ⟨err' | ⟨⟩, s'⟩
    · rw [hexec] at hc
      intro herr
      exact hc herr
    · rw [hexec] at hinv
      exact ih hinv

/-- A visitor that acts as another one does, but refuses some callbacks. -/
def refusing (refused : Callback → Bool) (err : CompileError) (visit : Callback → Run σ Unit)
    (c : Callback) : Run σ Unit :=
  if refused c then throw err else visit c

variable {refused : Callback → Bool} {err : CompileError}

/-- Refusals that are not got to change nothing. -/
theorem exec_forM_refusing (h : ∀ c, refused c = true → ¬ GetsTo visit s cs c) :
    (cs.forM (refusing refused err visit)).exec s = (cs.forM visit).exec s := by
  -- for every state, since the later callbacks go on from where the first one ends
  induction cs generalizing s with
  | nil => rfl
  | cons c rest ih =>
    have hc : refusing refused err visit c = visit c :=
      if_neg fun hrefused => h c hrefused (getsTo_head rest)
    show (refusing refused err visit c >>= fun _ => rest.forM (refusing refused err visit)).exec s =
      (visit c >>= fun _ => rest.forM visit).exec s
    rw [hc]
    rcases hexec : (visit c).exec s with ⟨_ | ⟨⟩, t⟩
    · rw [Run.exec_bind_error hexec, Run.exec_bind_error hexec]
    · rw [Run.exec_bind_ok hexec, Run.exec_bind_ok hexec]
      exact ih fun other hrefused hgets => h other hrefused (hgets.cons hexec)

/-- A refusal that is got to ends the run, unless another one has ended it before. -/
theorem eval_forM_refusing (hrefused : refused c = true) (h : GetsTo visit s cs c) :
    (cs.forM (refusing refused err visit)).eval s = .error err := by
  obtain ⟨before, after, t, rfl, hbefore⟩ := h
  induction before generalizing s with
  | nil =>
    have hc : refusing refused err visit c = throw err := if_pos hrefused
    apply Run.eval_bind_error
    rw [hc]
    rfl
  | cons first before ih =>
    show (refusing refused err visit first >>= fun _ =>
      (before ++ c :: after).forM (refusing refused err visit)).eval s = _
    unfold refusing
    split
    -- an earlier refusal ends the run with the same error
    · exact Run.eval_bind_error rfl
    · change (visit first >>= fun _ => before.forM visit).exec s = _ at hbefore
      rcases hfirst : (visit first).exec s with ⟨_ | ⟨⟩, s₁⟩
      · rw [Run.exec_bind_error hfirst] at hbefore
        cases hbefore
      · rw [Run.exec_bind_ok hfirst] at hbefore
        rw [Run.eval, Run.exec_bind_ok hfirst]
        exact ih hbefore

variable {e : Expr}

theorem exec_walk_refusing (h : ∀ c, refused c = true → ¬ e.Reaches visit s c) :
    (e.walk (refusing refused err visit)).exec s = (e.walk visit).exec s := by
  rw [Expr.walk_eq_forM_trace, Expr.walk_eq_forM_trace]
  exact exec_forM_refusing h

theorem eval_walk_refusing (hrefused : refused c = true) (h : e.Reaches visit s c) :
    (e.walk (refusing refused err visit)).eval s = .error err := by
  rw [Expr.walk_eq_forM_trace]
  exact eval_forM_refusing hrefused h

theorem Expr.reaches_iff_mem_trace (h : (e.walk visit).exec s = (.ok (), s')) :
    e.Reaches visit s c ↔ c ∈ e.trace := by
  rw [walk_eq_forM_trace] at h
  exact getsTo_iff_mem h

end

/-! ## §3 Other leaves -/

/-- Other columns, and other constants, in the place of those of an expression. -/
structure Relabeling where
  column : Column → Column
  constant : Value × AttributeType → Value × AttributeType

namespace Relabeling

/-- The callback of a relabeled leaf; callbacks of nodes and of variables stay. -/
def callback (ρ : Relabeling) : Callback → Callback
  | .column c => .column (ρ.column c)
  | .literal value type => .literal (ρ.constant (value, type)).1 (ρ.constant (value, type)).2
  | other => other

end Relabeling

namespace Expr

mutual

/-- An expression with other columns and constants at its leaves. -/
def relabel (ρ : Relabeling) : Expr → Expr
  | .and l r => .and (l.relabel ρ) (r.relabel ρ)
  | .or l r => .or (l.relabel ρ) (r.relabel ρ)
  | .not e => .not (e.relabel ρ)
  | .compare op l r => .compare op (l.relabel ρ) (r.relabel ρ)
  | .isNull e => .isNull (e.relabel ρ)
  | .member e source => .member (e.relabel ρ) source
  | .arithmetic op l r => .arithmetic op (l.relabel ρ) (r.relabel ρ)
  | .call f args => .call f (relabelAll ρ args)
  | .column c => .column (ρ.column c)
  | .variable v => .variable v
  | .constant value type => .constant (ρ.constant (value, type)).1 (ρ.constant (value, type)).2

/-- The arguments of a call with other columns and constants at their leaves. -/
def relabelAll (ρ : Relabeling) : List Expr → List Expr
  | [] => []
  | e :: rest => e.relabel ρ :: relabelAll ρ rest

end

variable {m : Type → Type} [Monad m] (visit : Callback → m Unit) (ρ : Relabeling)

/-- **A relabeled expression is traversed with relabeled callbacks.** -/
theorem walk_relabel (e : Expr) :
    (e.relabel ρ).walk visit = e.walk fun c => visit (ρ.callback c) := by
  induction e with
  | and l r ihl ihr | or l r ihl ihr =>
    rw [relabel, walk, walk, ihl, ihr]
    rfl
  | compare op l r ihl ihr | arithmetic op l r ihl ihr =>
    rw [relabel, walk, walk, ihl, ihr]
    rfl
  | not e ih | isNull e ih | member e source ih =>
    rw [relabel, walk, walk, ih]
    rfl
  | call f args ih =>
    have hargs : walkAll visit (relabelAll ρ args) = walkAll (fun c => visit (ρ.callback c)) args := by
      induction args with
      | nil => rfl
      | cons first rest ihrest =>
        obtain ⟨hfirst, hrest⟩ := List.forall_mem_cons.1 ih
        rw [relabelAll, walkAll, walkAll, hfirst, ihrest hrest]
    rw [relabel, walk, walk, hargs]
    rfl
  | column c => rfl
  | var v => rfl
  | constant value type => rfl

/-- Visitors that agree on the callbacks of an expression traverse it alike. -/
theorem walk_congr [LawfulMonad m] {visit visit' : Callback → m Unit} {e : Expr}
    (h : ∀ c ∈ e.trace, visit c = visit' c) : e.walk visit = e.walk visit' := by
  rw [walk_eq_forM_trace, walk_eq_forM_trace]
  generalize e.trace = cs at h
  induction cs with
  | nil => rfl
  | cons c rest ih =>
    obtain ⟨hc, hrest⟩ := List.forall_mem_cons.1 h
    rw [List.forM, List.forM, hc, ih hrest]

end Expr

end QueryPipeline
