import QueryPipeline.Proofs.Session.Steps

/-!
# Transcripts of sessions

A session is asked for one thing after the other.  Its transcript says of every operation where the
session stood before, how the operation came out, and where the session stood afterwards; operations
that fail are part of it.

## Main definitions

- `Operation`, `Product`: what a session can be asked for, and what it gives out.
- `Session.transcript`: a whole session.

## Main statements

- `Session.keeps_perform`: what one operation keeps to.
- `Session.le_before_of_mem_transcript`: the numbering of a session goes forward.
- `Session.transcript_never_collides`: no placeholder is given out twice.
-/

namespace QueryPipeline

/-! ## §1 Operations -/

/-- What a session can be asked for. -/
inductive Operation where
  | filter (e : Expr)
  | having (e : Expr)
  | assignment (e : Expr)
  | projection (e : Expr)
  | key (e : Expr)
  | query (q : Query)
  | update (assignments : List (String × Expr))

/-- What a session gives out. -/
inductive Product where
  | clause (c : CompiledFragment)
  | projection (p : Projection)
  | key (field : String)
  | pipeline (p : Pipeline)
  | update (u : Update)

/-- The expression of a single clause. -/
def Operation.clause? : Operation → Option Expr
  | .filter e => some e
  | .having e => some e
  | .assignment e => some e
  | _ => none

def Operation.perform : Operation → Run Session Product
  | .filter e => do return .clause (← Session.filter e)
  | .having e => do return .clause (← Session.having e)
  | .assignment e => do return .clause (← Session.assignment e)
  | .projection e => do return .projection (← Session.projection e)
  | .key e => do return .key (← Session.key e)
  | .query q => do return .pipeline (← Session.query q)
  | .update assignments => do return .update (← Session.update assignments)

/-- The placeholders that a product still holds. -/
def Product.placeholders : Product → Placeholders
  | .clause c => c.placeholders
  | .pipeline p => p.placeholders
  | .update u => u.placeholders
  | .projection _ | .key _ => .empty

namespace Session

/-- What an operation on its own tells about the placeholders it gives out: they were numbered for it,
    and a clause has a number for each of its variables and constants. -/
def Gives (s : Session) (operation : Operation) (p : Product) (t : Sequence) : Prop :=
  (∀ name ∈ p.placeholders.names, s.sequence.Issued t name) ∧
    ∀ e, operation.clause? = some e →
      t = ⟨s.sequence.nextVariable + e.vars.length, s.sequence.nextLiteral + e.constants.length⟩

theorem Numbers.eq_add {s : Session} {e : Expr} {c : CompiledFragment} {t : Sequence}
    (h : Numbers s e c t) :
    t = ⟨s.sequence.nextVariable + e.vars.length, s.sequence.nextLiteral + e.constants.length⟩ := by
  obtain ⟨hnumbered, rfl⟩ := h
  rw [hnumbered.sequence, Sequence.advance_eq]
  rfl

theorem Numbers.gives {s : Session} {operation : Operation} {e : Expr}
    (hclause : operation.clause? = some e) {c : CompiledFragment} {t : Sequence}
    (h : Numbers s e c t) : Gives s operation (.clause c) t := by
  refine ⟨h.issued, ?_⟩
  intro e' he'
  rw [hclause] at he'
  cases he'
  exact h.eq_add

/-- **One operation** only gives out placeholders that it has numbered, and fails only by
    refusing. -/
theorem keeps_perform (s : Session) (operation : Operation) :
    Keeps s operation.perform (Gives s operation) := by
  cases operation with
  | filter e => exact (keeps_filter s e).bind fun _ _ _ _ h => .pure (h.gives rfl)
  | having e => exact (keeps_having s e).bind fun _ _ _ _ h => .pure (h.gives rfl)
  | assignment e => exact (keeps_assignment s e).bind fun _ _ _ _ h => .pure (h.gives rfl)
  | projection e =>
    exact (keeps_projection s e).bind fun _ _ _ _ _ => .pure ⟨nofun, nofun⟩
  | key e => exact (keeps_key s e).bind fun _ _ _ _ _ => .pure ⟨nofun, nofun⟩
  | query q => exact (keeps_query s q).bind fun _ _ _ _ h => .pure ⟨h, nofun⟩
  | update assignments => exact (keeps_update s assignments).bind fun _ _ _ _ h => .pure ⟨h, nofun⟩

/-! ## §2 Whole sessions -/

/-- One operation of a session and how it came out. -/
structure Step where
  before : Session
  operation : Operation
  outcome : Except CompileError Product
  after : Session

/-- Take an operation in a session. -/
def take (s : Session) (operation : Operation) : Step where
  before := s
  operation := operation
  outcome := operation.perform.eval s
  after := (operation.perform.exec s).2

/-- All operations of a session, each in the session that the one before has left. -/
def transcript (s : Session) : List Operation → List Step
  | [] => []
  | operation :: rest => s.take operation :: (s.take operation).after.transcript rest

/-- Every operation of a transcript was taken where its session stood. -/
theorem eq_take_of_mem_transcript {s : Session} {operations : List Operation} {step : Step}
    (h : step ∈ s.transcript operations) : step = step.before.take step.operation := by
  induction operations generalizing s with
  | nil => cases h
  | cons operation rest ih =>
    rcases List.mem_cons.1 h with rfl | h
    · rfl
    · exact ih h

/-- What holds of an operation in every session holds of all operations of a transcript. -/
theorem forall_mem_transcript {motive : Step → Prop}
    (h : ∀ s operation, motive (take s operation)) (s : Session) (operations : List Operation) :
    ∀ step ∈ s.transcript operations, motive step := by
  intro step hstep
  rw [eq_take_of_mem_transcript hstep]
  exact h _ _

theorem sequence_le_after_take (s : Session) (operation : Operation) :
    s.sequence ≤ (s.take operation).after.sequence :=
  (keeps_perform s operation).forward

/-- The numbering of a session goes forward. -/
theorem le_before_of_mem_transcript {s : Session} {operations : List Operation} {step : Step}
    (h : step ∈ s.transcript operations) : s.sequence ≤ step.before.sequence := by
  induction operations generalizing s with
  | nil => cases h
  | cons operation rest ih =>
    rcases List.mem_cons.1 h with rfl | h
    · exact s.sequence.le_refl
    · exact Sequence.le_trans (s.sequence_le_after_take operation) (ih h)

/-- Every operation of a session starts with the numbers that those before it have left. -/
theorem pairwise_transcript (s : Session) (operations : List Operation) :
    (s.transcript operations).Pairwise fun step later =>
      step.after.sequence ≤ later.before.sequence := by
  induction operations generalizing s with
  | nil => exact .nil
  | cons operation rest ih =>
    refine List.pairwise_cons.2 ⟨?_, ih _⟩
    intro later hlater
    exact le_before_of_mem_transcript hlater

/-- What a successful operation gives out was numbered while it was performed. -/
theorem issued_of_mem_transcript {s : Session} {operations : List Operation} {step : Step}
    (h : step ∈ s.transcript operations) {p : Product} (hp : step.outcome = .ok p) :
    ∀ name ∈ p.placeholders.names, step.before.sequence.Issued step.after.sequence name := by
  rw [eq_take_of_mem_transcript h] at hp ⊢
  exact ((keeps_perform _ _).meets p hp).1

/-- **No placeholder is given out twice in a session.**  Whatever a session is asked for, and wherever
    it fails:

    - the numbering never goes back, neither in an operation nor from one operation to a later one;
    - a clause that is compiled on its own takes a number for each variable and each constant;
    - the placeholders of any two operations that succeed have no name in common;
    - no operation ends in an internal fault, such as a placeholder that two clauses have been given,
      or in a missing value. -/
theorem transcript_never_collides (s : Session) (operations : List Operation) :
    (∀ step ∈ s.transcript operations,
      step.before.sequence ≤ step.after.sequence ∧
      (∀ e p, step.operation.clause? = some e → step.outcome = .ok p →
        step.after.sequence.nextVariable = step.before.sequence.nextVariable + e.vars.length ∧
        step.after.sequence.nextLiteral = step.before.sequence.nextLiteral + e.constants.length) ∧
      (∀ fault, step.outcome ≠ .error (.internal fault)) ∧
      ∀ placeholder key, step.outcome ≠ .error (.missingBinding placeholder key)) ∧
    (s.transcript operations).Pairwise fun step later =>
      step.after.sequence ≤ later.before.sequence ∧
      ∀ p p', step.outcome = .ok p → later.outcome = .ok p' →
        p.placeholders.Apart p'.placeholders := by
  refine ⟨forall_mem_transcript ?_ s operations, ?_⟩
  · intro before operation
    have hkeeps := keeps_perform before operation
    refine ⟨hkeeps.forward, ?_, ?_, ?_⟩
    · intro e p he hp
      have hafter : (before.take operation).after.sequence = _ := (hkeeps.meets p hp).2 e he
      rw [hafter]
      exact ⟨rfl, rfl⟩
    · intro fault hfault
      exact nomatch hkeeps.refuses _ hfault
    · intro placeholder key hmissing
      exact nomatch hkeeps.refuses _ hmissing
  · -- later operations have higher numbers, so their names are others
    refine (pairwise_transcript s operations).imp_of_mem ?_
    intro step later hstep hlater hle
    refine ⟨hle, ?_⟩
    intro p p' hp hp'
    exact apart_of_issued hle (issued_of_mem_transcript hstep hp) (issued_of_mem_transcript hlater hp')

end Session

end QueryPipeline
