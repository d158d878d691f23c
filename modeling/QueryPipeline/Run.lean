import QueryPipeline.Error

/-!
# Computations whose state survives a failure

A compiler is a state that callbacks act on.  A callback may fail, and whatever it had done to the
state by then stays done, so that later callbacks still see it.

## Main definitions

- `Run σ α`: a step on a state `σ` with a result in `α`.
- `Run.exec`, `Run.eval`: outcome and state, or the outcome alone.

The lemmas of §2 say what `exec` does with each way of building a step; they are all that proofs about
compilers need to know of the definition.
-/

namespace QueryPipeline

/-! ## §1 Steps -/

/-- A step on a state `σ` that gives a result or a compile error, and a new state in either case. -/
abbrev Run (σ : Type) : Type → Type :=
  ExceptT CompileError (StateM σ)

namespace Run

variable {σ α β : Type}

/-- Outcome and state after a step. -/
def exec (step : Run σ α) (s : σ) : Except CompileError α × σ :=
  (ExceptT.run step).run s

/-- Outcome of a step, without the state. -/
def eval (step : Run σ α) (s : σ) : Except CompileError α :=
  (step.exec s).1

/-- A computation without state. -/
def lift (r : Except CompileError α) : Run σ α :=
  match r with
  | .ok a => pure a
  | .error e => throw e

/-- A computation without state that fails only by an internal fault. -/
def internal (r : Except InternalFault α) : Run σ α :=
  lift (r.mapError .internal)

/-! ## §2 What a step does -/

@[simp] theorem exec_pure (a : α) (s : σ) : (pure a : Run σ α).exec s = (.ok a, s) :=
  rfl

@[simp] theorem exec_throw (e : CompileError) (s : σ) :
    (throw e : Run σ α).exec s = (.error e, s) :=
  rfl

/-- A sequence stops at the first failure, with the state left there. -/
theorem exec_bind (step : Run σ α) (next : α → Run σ β) (s : σ) :
    (step >>= next).exec s =
      match step.exec s with
      | (.ok a, s') => (next a).exec s'
      | (.error e, s') => (.error e, s') := by
  simp only [exec, ExceptT.run_bind, StateT.run_bind]
  rcases h : (ExceptT.run step).run s with ⟨r, s'⟩
  cases r <;> rfl

/-- A sequence of results without state succeeds when both parts do. -/
theorem bind_eq_ok_iff {ε : Type} {r : Except ε α} {next : α → Except ε β} {b : β} :
    r >>= next = .ok b ↔ ∃ a, r = .ok a ∧ next a = .ok b := by
  constructor
  · intro h
    cases r with
    | ok a => exact ⟨a, rfl, h⟩
    | error e => cases h
  · rintro ⟨a, rfl, h⟩
    exact h

/-- A sequence of results without state fails as the first part that does. -/
theorem bind_eq_error_iff {r : Except CompileError α} {next : α → Except CompileError β}
    {e : CompileError} :
    r >>= next = .error e ↔ r = .error e ∨ ∃ a, r = .ok a ∧ next a = .error e := by
  constructor
  · intro h
    cases r with
    | ok a => exact .inr ⟨a, rfl, h⟩
    | error e' =>
      cases h
      exact .inl rfl
  · rintro (rfl | ⟨a, rfl, h⟩)
    · rfl
    · exact h

/-- The results of several computations without state come from their arguments. -/
theorem exists_of_mem_mapM {f : α → Except CompileError β} {l : List α} {results : List β}
    (h : l.mapM f = .ok results) {b : β} (hb : b ∈ results) : ∃ a ∈ l, f a = .ok b := by
  induction l generalizing results with
  | nil =>
    cases h
    cases hb
  | cons first rest ih =>
    rw [List.mapM_cons] at h
    obtain ⟨b', hfirst, h⟩ := bind_eq_ok_iff.1 h
    obtain ⟨others, hrest, h⟩ := bind_eq_ok_iff.1 h
    cases h
    rcases List.mem_cons.1 hb with rfl | hb
    · exact ⟨first, List.mem_cons_self, hfirst⟩
    · obtain ⟨a, ha, hf⟩ := ih hrest hb
      exact ⟨a, List.mem_cons_of_mem _ ha, hf⟩

/-- What can be told of every result can be told of its argument. -/
theorem map_eq_of_mapM {γ : Type} {f : α → Except CompileError β} {l : List α} {results : List β}
    (h : l.mapM f = .ok results) {g : β → γ} {g' : α → γ} (hg : ∀ a b, f a = .ok b → g b = g' a) :
    results.map g = l.map g' := by
  induction l generalizing results with
  | nil =>
    cases h
    rfl
  | cons first rest ih =>
    rw [List.mapM_cons] at h
    obtain ⟨b, hfirst, h⟩ := bind_eq_ok_iff.1 h
    obtain ⟨others, hrest, h⟩ := bind_eq_ok_iff.1 h
    cases h
    rw [List.map_cons, List.map_cons, hg first b hfirst, ih hrest]

theorem isEmpty_of_mapM {f : α → Except CompileError β} {l : List α} {results : List β}
    (h : l.mapM f = .ok results) : results.isEmpty = l.isEmpty := by
  have hmap : results.map (fun _ => ()) = l.map fun _ => () := map_eq_of_mapM h fun _ _ _ => rfl
  rw [← List.isEmpty_map, hmap, List.isEmpty_map]

theorem exists_eq_ok {r : Except CompileError α} (h : r.isOk = true) : ∃ a, r = .ok a := by
  cases r with
  | ok a => exact ⟨a, rfl⟩
  | error e => cases h

theorem map_eq_ok_iff {ε : Type} {r : Except ε α} {f : α → β} {b : β} :
    r.map f = .ok b ↔ ∃ a, r = .ok a ∧ f a = b := by
  cases r <;> simp [Except.map]

/-- A sequence goes on from the state that its first step leaves. -/
theorem exec_bind_ok {step : Run σ α} {next : α → Run σ β} {s s' : σ} {a : α}
    (h : step.exec s = (.ok a, s')) : (step >>= next).exec s = (next a).exec s' := by
  rw [exec_bind, h]

/-- A sequence fails as its first step fails, with the state left there. -/
theorem exec_bind_error {step : Run σ α} {next : α → Run σ β} {s s' : σ} {e : CompileError}
    (h : step.exec s = (.error e, s')) : (step >>= next).exec s = (.error e, s') := by
  rw [exec_bind, h]

/-- A sequence fails as its first step fails. -/
theorem eval_bind_error {step : Run σ α} {next : α → Run σ β} {s : σ} {e : CompileError}
    (h : step.eval s = .error e) : (step >>= next).eval s = .error e := by
  unfold eval at h ⊢
  rw [exec_bind]
  rcases hs : step.exec s with ⟨r, s'⟩
  rw [hs] at h
  cases h
  rfl

/-- Outcome and state of a step that changes the state only where it succeeds. -/
def moved (r : Except CompileError α) (after : α → σ) (s : σ) : Except CompileError α × σ :=
  match r with
  | .ok a => (.ok a, after a)
  | .error e => (.error e, s)

/-- A sequence whose first step changes the state only where it succeeds. -/
theorem eval_bind_moved {step : Run σ α} {r : Except CompileError α} {after : α → σ} {s : σ}
    (h : step.exec s = moved r after s) (next : α → Run σ β) :
    (step >>= next).eval s = r >>= fun a => (next a).eval (after a) := by
  unfold eval
  rw [exec_bind, h]
  cases r <;> rfl

/-- A sequence whose first step leaves the state alone. -/
theorem eval_bind_stateless {step : Run σ α} {r : Except CompileError α} {s : σ}
    (h : step.exec s = (r, s)) (next : α → Run σ β) :
    (step >>= next).eval s = r >>= fun a => (next a).eval s := by
  unfold eval
  rw [exec_bind, h]
  cases r <;> rfl

/-- Steps that leave the state alone, taken one after the other. -/
theorem exec_mapM_stateless {step : α → Run σ β} {f : α → Except CompileError β} {s : σ}
    (h : ∀ a, (step a).exec s = (f a, s)) (l : List α) : (l.mapM step).exec s = (l.mapM f, s) := by
  induction l with
  | nil => rfl
  | cons a rest ih =>
    rw [List.mapM_cons, List.mapM_cons, exec_bind, h]
    cases f a with
    | error err => rfl
    | ok b =>
      simp only
      rw [exec_bind, ih]
      cases rest.mapM f <;> rfl

@[simp] theorem exec_get (s : σ) : (get : Run σ σ).exec s = (.ok s, s) :=
  rfl

@[simp] theorem exec_set (s t : σ) : (set t : Run σ PUnit).exec s = (.ok ⟨⟩, t) :=
  rfl

@[simp] theorem exec_modify (f : σ → σ) (s : σ) :
    (modify f : Run σ PUnit).exec s = (.ok ⟨⟩, f s) :=
  rfl

/-- A computation without state leaves the state alone. -/
@[simp] theorem exec_lift (r : Except CompileError α) (s : σ) : (lift r).exec s = (r, s) := by
  cases r <;> rfl

/-- A computation without state with its result changed. -/
theorem exec_lift_bind_pure (r : Except CompileError α) (f : α → β) (s : σ) :
    (lift r >>= fun a => pure (f a) : Run σ β).exec s = (r.map f, s) := by
  cases r <;> rfl

/-- A sequence that ends in a computation without state. -/
theorem eval_bind_lift (step : Run σ α) (f : α → Except CompileError β) (s : σ) :
    (step >>= fun a => lift (f a)).eval s = step.eval s >>= f := by
  unfold eval
  rw [exec_bind]
  rcases step.exec s with ⟨outcome, s'⟩
  cases outcome with
  | error e => rfl
  | ok a => exact congrArg Prod.fst (exec_lift (f a) s')

@[simp] theorem exec_internal (r : Except InternalFault α) (s : σ) :
    (internal r).exec s = (r.mapError .internal, s) :=
  exec_lift _ s

end Run

end QueryPipeline
