import QueryPipeline.Run

/-!
# Refusals

A compile error is a refusal if it says something about what was to be compiled, and not about the
compiler itself or about supplied values.

## Main definitions

- `CompileError.isRefusal`: errors that are refusals.
- `OnlyRefuses`: results that fail by refusals only.
- `SameErrors`: two results that fail alike.
- `Reports`: results that fail with the first of some faults.
-/

namespace QueryPipeline

variable {α β γ δ : Type}

/-! ## §1 Results that only refuse -/

/-- Whether an error says something about the expression, and not about the compiler itself or about
    supplied values. -/
def CompileError.isRefusal : CompileError → Bool
  | .internal _ => false
  | .missingBinding _ _ => false
  | _ => true

/-- A result that fails only for what the expression says. -/
def OnlyRefuses (result : Except CompileError α) : Prop :=
  ∀ err, result = .error err → err.isRefusal

theorem OnlyRefuses.ok (a : α) : OnlyRefuses (.ok a) := by
  intro err h
  cases h

theorem OnlyRefuses.error {err : CompileError} (h : err.isRefusal) :
    OnlyRefuses (.error err : Except CompileError α) := by
  intro err' herr
  cases herr
  exact h

theorem OnlyRefuses.bind {result : Except CompileError α} {next : α → Except CompileError β}
    (h : OnlyRefuses result) (hnext : ∀ a, OnlyRefuses (next a)) :
    OnlyRefuses (result >>= next) := by
  intro err herr
  rcases Run.bind_eq_error_iff.1 herr with hresult | ⟨a, _, ha⟩
  · exact h err hresult
  · exact hnext a err ha

theorem OnlyRefuses.map {result : Except CompileError α} (h : OnlyRefuses result) (f : α → β) :
    OnlyRefuses (result.map f) := by
  intro err herr
  cases result with
  | ok a => cases herr
  | error err' =>
    cases herr
    exact h err rfl

theorem OnlyRefuses.mapM {f : α → Except CompileError β} (h : ∀ a, OnlyRefuses (f a))
    (l : List α) : OnlyRefuses (l.mapM f) := by
  induction l with
  | nil => exact .ok _
  | cons a rest ih =>
    rw [List.mapM_cons]
    exact (h a).bind fun _ => ih.bind fun _ => .ok _

/-! ## §2 Results that fail alike -/

/-- Two results that fail with the same errors, and succeed together. -/
def SameErrors (result : Except CompileError α) (other : Except CompileError β) : Prop :=
  ∀ err, result = .error err ↔ other = .error err

theorem SameErrors.refl (result : Except CompileError α) : SameErrors result result :=
  fun _ => Iff.rfl

theorem SameErrors.ok (a : α) (b : β) :
    SameErrors (.ok a : Except CompileError α) (.ok b : Except CompileError β) := by
  intro err
  constructor <;> intro h <;> cases h

theorem SameErrors.error (err : CompileError) :
    SameErrors (.error err : Except CompileError α) (.error err : Except CompileError β) := by
  intro err'
  constructor <;> intro h <;> cases h <;> rfl

/-- Results that differ only where they succeed fail alike. -/
theorem SameErrors.of_map_eq {result : Except CompileError α} {other : Except CompileError β}
    (h : result.map (fun _ => ()) = other.map fun _ => ()) : SameErrors result other := by
  intro err
  cases result <;> cases other <;> simp_all [Except.map]

theorem SameErrors.exists_ok {result : Except CompileError α} {other : Except CompileError β}
    (h : SameErrors result other) {a : α} (ha : result = .ok a) : ∃ b, other = .ok b := by
  cases hother : other with
  | ok b => exact ⟨b, rfl⟩
  | error err =>
    rw [(h err).2 hother] at ha
    cases ha

/-- Sequences fail alike if their first parts do, and what follows does wherever both succeed. -/
theorem SameErrors.bind {result : Except CompileError α} {other : Except CompileError β}
    {next : α → Except CompileError γ} {next' : β → Except CompileError δ}
    (h : SameErrors result other)
    (hnext : ∀ a b, result = .ok a → other = .ok b → SameErrors (next a) (next' b)) :
    SameErrors (result >>= next) (other >>= next') := by
  cases hresult : result with
  | error err =>
    rw [(h err).1 hresult]
    exact .error err
  | ok a =>
    obtain ⟨b, hother⟩ := h.exists_ok hresult
    rw [hother]
    exact hnext a b hresult hother

theorem SameErrors.map {result : Except CompileError α} {other : Except CompileError β}
    (h : SameErrors result other) (f : α → γ) (g : β → δ) :
    SameErrors (result.map f) (other.map g) := by
  intro err
  have herr := h err
  cases result <;> cases other <;> simp_all [Except.map]

/-! ## §3 Results that report the first fault -/

/-- The error of a result that fails. -/
def fault? : Except CompileError α → Option CompileError
  | .ok _ => none
  | .error err => some err

theorem fault?_eq_none_iff {result : Except CompileError α} :
    fault? result = none ↔ ∃ a, result = .ok a := by
  cases result <;> simp [fault?]

/-- A result fails with the first of some faults, and succeeds if there is none. -/
def Reports (result : Except CompileError α) (faults : List CompileError) : Prop :=
  ∀ err, result = .error err ↔ faults.head? = some err

theorem Reports.ok (a : α) : Reports (.ok a) [] := by
  intro err
  constructor <;> intro h <;> cases h

/-- A result reports its own fault. -/
theorem Reports.fault? (result : Except CompileError α) : Reports result (fault? result).toList := by
  intro err
  cases result <;> simp [QueryPipeline.fault?]

theorem Reports.of_sameErrors {result : Except CompileError α} {other : Except CompileError β}
    {faults : List CompileError} (h : SameErrors result other) (hother : Reports other faults) :
    Reports result faults :=
  fun err => (h err).trans (hother err)

/-- Results that report the same faults fail alike. -/
theorem Reports.sameErrors {result : Except CompileError α} {other : Except CompileError β}
    {faults : List CompileError} (h : Reports result faults) (hother : Reports other faults) :
    SameErrors result other :=
  fun err => (h err).trans (hother err).symm

/-- A result that reports no fault succeeds. -/
theorem Reports.exists_ok_iff {result : Except CompileError α} {faults : List CompileError}
    (h : Reports result faults) : (∃ a, result = .ok a) ↔ faults = [] := by
  cases result with
  | ok a =>
    refine iff_of_true ⟨a, rfl⟩ ?_
    cases faults with
    | nil => rfl
    | cons err rest => cases (h err).2 rfl
  | error err =>
    refine iff_of_false (by simp) ?_
    rintro rfl
    cases (h err).1 rfl

/-- Of two parts, the second reports only if the first has nothing to report. -/
theorem Reports.bind {result : Except CompileError α} {next : α → Except CompileError β}
    {faults others : List CompileError} (h : Reports result faults)
    (hnext : ∀ a, result = .ok a → Reports (next a) others) :
    Reports (result >>= next) (faults ++ others) := by
  intro err
  cases hresult : result with
  | ok a =>
    have hnone : faults = [] := h.exists_ok_iff.1 ⟨a, hresult⟩
    rw [hnone, List.nil_append]
    exact hnext a hresult err
  | error err' =>
    have hfirst : faults.head? = some err' := (h err').1 hresult
    rw [List.head?_append, hfirst]
    change Except.error err' = .error err ↔ some err' = some err
    simp

theorem Reports.map {result : Except CompileError α} {faults : List CompileError}
    (h : Reports result faults) (f : α → β) : Reports (result.map f) faults := by
  intro err
  rw [← h err]
  cases result <;> simp [Except.map]

/-- Of several items, the first one with a fault reports it. -/
theorem Reports.mapM {f : α → Except CompileError β} {fault : α → Option CompileError}
    (h : ∀ a, Reports (f a) (fault a).toList) (l : List α) :
    Reports (l.mapM f) (l.filterMap fault) := by
  induction l with
  | nil => exact .ok _
  | cons a rest ih =>
    have hfaults : (a :: rest).filterMap fault = (fault a).toList ++ (rest.filterMap fault ++ []) := by
      rw [List.filterMap_cons, List.append_nil]
      cases fault a <;> rfl
    rw [List.mapM_cons, hfaults]
    exact (h a).bind fun _ _ => ih.bind fun _ _ => .ok _

theorem Reports.mapM_option {f : α → Except CompileError β} {fault : α → Option CompileError}
    (h : ∀ a, Reports (f a) (fault a).toList) (o : Option α) :
    Reports (o.mapM f) (o.toList.filterMap fault) := by
  cases o with
  | none => exact .ok _
  | some a =>
    have hfaults : (some a).toList.filterMap fault = (fault a).toList := by
      rw [Option.toList_some, List.filterMap_cons]
      cases fault a <;> rfl
    rw [Option.mapM_some, hfaults]
    exact (h a).map some

end QueryPipeline
