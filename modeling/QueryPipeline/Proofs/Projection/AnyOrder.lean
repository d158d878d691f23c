import QueryPipeline.Proofs.Projection.Direct
import QueryPipeline.Proofs.Traversal

/-!
# Projection callbacks in any order

The projection compiler trusts nobody to make its callbacks in order: calls may be left that were
never entered, entered and never left, or entered inside one another, and the callbacks may go on
after any of them has failed.  Its state stays in order all the same.  The reason is that a call is
only opened where no other is open, and that the stack only shrinks where a call is closed: as long as
a call is open, the stack is what it was when the call was entered, with leaves on top.

## Main definitions

- `Projection.IsFlat`: projections without an aggregate of an aggregate.
- `ProjectionCompiler.OpenSince`: an open call, told from the callbacks that have been made.
- `ProjectionCompiler.InOrder`: the invariant.

## Main statements

- `ProjectionCompiler.exec_visit_cases`: everything that a callback can do.
- `ProjectionCompiler.inOrder_afterAll`: the invariant holds after any callbacks.
- `ProjectionCompiler.callbacks_in_any_order`: what follows for the compiler.
-/

namespace QueryPipeline

/-- Projections without an aggregate of an aggregate. -/
def Projection.IsFlat : Projection → Prop
  | .aggregate _ argument => argument.isAggregate = false
  | _ => True

theorem Leaf.isAggregate_projection (l : Leaf) : l.projection.isAggregate = false := by
  rcases l with _ | (_ | _) <;> rfl

theorem Projection.isFlat_of_isAggregate {p : Projection} (h : p.isAggregate = false) : p.IsFlat := by
  cases p with
  | aggregate function argument => cases h
  | _ => trivial

namespace ProjectionCompiler

/-! ## §1 What a callback can do -/

/-- Callbacks that close a call. -/
def IsExit (c : Callback) : Prop :=
  ∃ f, c = .leave (.call f)

variable {s : ProjectionCompiler}

theorem exec_closeCall_of_closed (f : FunctionName) (hcalls : s.calls = []) :
    (closeCall f).exec s = (.error (.internal (.exitWithoutEnter f)), s) := by
  unfold closeCall
  rw [Run.exec_bind_ok (Run.exec_get s), hcalls]
  rfl

/-- Outcomes that do not blame the stack for being too short. -/
def BlamesNoDepth (outcome : Except CompileError Unit) : Prop :=
  ∀ depth size, outcome ≠ .error (.internal (.stackShrank depth size))

theorem blamesNoDepth_ok : BlamesNoDepth (.ok ()) := by
  intro depth size h
  cases h

/-- A callback leaves the state as it is, and closes no call. -/
def Idles (s : ProjectionCompiler) (c : Callback) : Prop :=
  ∃ outcome, (visit c).exec s = (outcome, s) ∧ BlamesNoDepth outcome ∧ (IsExit c → s.calls = [])

/-- Entering a node opens a call, if it is an aggregate and no call is open, or does nothing. -/
theorem exec_enter_cases (s : ProjectionCompiler) (construct : Construct) :
    (∃ f function, construct = .call f ∧ Aggregate.ofFunction? f = some function ∧ s.calls = [] ∧
      (visit (.enter construct)).exec s =
        (.ok (), { s with calls := [(function, s.stack.size)] })) ∨
    Idles s (.enter construct) := by
  cases construct with
  | call f =>
    cases hf : Aggregate.ofFunction? f with
    | none => exact .inr ⟨_, exec_openCall_of_unknown hf, nofun, nofun⟩
    | some function =>
      cases hcalls : s.calls with
      | nil => exact .inl ⟨f, function, rfl, hf, rfl, exec_openCall hf hcalls⟩
      | cons call calls => exact .inr ⟨_, exec_openCall_of_nested hf hcalls, nofun, nofun⟩
  -- the other nodes are refused
  | _ => exact .inr ⟨_, rfl, nofun, nofun⟩

/-- Leaving a node closes the open call, or does nothing. -/
theorem exec_leave_cases (s : ProjectionCompiler) (construct : Construct) :
    (IsExit (.leave construct) ∧ s.calls ≠ []) ∨ Idles s (.leave construct) := by
  cases construct with
  | call f =>
    by_cases hcalls : s.calls = []
    · exact .inr ⟨_, exec_closeCall_of_closed f hcalls, nofun, fun _ => hcalls⟩
    · exact .inl ⟨⟨f, rfl⟩, hcalls⟩
  | _ => exact .inr ⟨_, rfl, nofun, nofun⟩

/-- **Everything that a callback can do**: a leaf comes on top, a call is opened where none is open, an
    open call is closed, or nothing happens to the state. -/
theorem exec_visit_cases (s : ProjectionCompiler) (c : Callback) :
    (∃ l : Leaf, c = l.callback ∧
      (visit c).exec s = (.ok (), { s with stack := s.stack.push l.projection })) ∨
    (∃ f function, c = .enter (.call f) ∧ Aggregate.ofFunction? f = some function ∧ s.calls = [] ∧
      (visit c).exec s = (.ok (), { s with calls := [(function, s.stack.size)] })) ∨
    (IsExit c ∧ s.calls ≠ []) ∨ Idles s c := by
  cases c with
  | column col => exact .inl ⟨.column col, rfl, rfl⟩
  | «variable» v => exact .inl ⟨.entry (.variable v), rfl, rfl⟩
  | literal value type => exact .inl ⟨.entry (.literal value type), rfl, rfl⟩
  | between construct => exact .inr (.inr (.inr ⟨_, rfl, nofun, nofun⟩))
  | enter construct =>
    rcases exec_enter_cases s construct with ⟨f, function, rfl, hopen⟩ | hidle
    · exact .inr (.inl ⟨f, function, rfl, hopen⟩)
    · exact .inr (.inr (.inr hidle))
  | leave construct => exact .inr (.inr (exec_leave_cases s construct))

/-! ## §2 Open calls -/

/-- After the callbacks `past`, a call of `function` is open.  It was opened after `before`, no call
    has been closed since, and only `leaves` have come on top of what was on the stack then. -/
structure OpenSince (past before : List Callback) (function : Aggregate) (leaves : List Projection)
    (s : ProjectionCompiler) : Prop where
  entered : ∃ f since, past = before ++ .enter (.call f) :: since ∧
    Aggregate.ofFunction? f = some function ∧ ∀ c ∈ since, ¬ IsExit c
  closed : (afterAll visit {} before).calls = []
  calls : s.calls = [(function, (afterAll visit {} before).stack.size)]
  stack : s.stack.items = leaves.reverse ++ (afterAll visit {} before).stack.items
  leaves : ∀ p ∈ leaves, p.isAggregate = false

/-- The state after the callbacks `past` is in order: there are no aggregates of aggregates, and no
    call is open or one that can be told from the callbacks. -/
structure InOrder (past : List Callback) (s : ProjectionCompiler) : Prop where
  flat : ∀ p ∈ s.stack.items, p.IsFlat
  calls : s.calls = [] ∨ ∃ before function leaves, OpenSince past before function leaves s

variable {past before : List Callback} {function : Aggregate} {leaves : List Projection}

/-- What a call that is left makes of the state. -/
theorem OpenSince.exec_exit (h : OpenSince past before function leaves s) (f : FunctionName) :
    (visit (.leave (.call f))).exec s =
      ((aggregated function leaves).map fun _ => (),
        ⟨⟨(aggregated function leaves).toOption.toList ++
          (afterAll visit {} before).stack.items⟩, []⟩) := by
  have hs : s = ⟨⟨leaves.reverse ++ (afterAll visit {} before).stack.items⟩,
      [(function, (afterAll visit {} before).stack.items.length)]⟩ := by
    obtain ⟨⟨items⟩, calls⟩ := s
    obtain rfl : calls = _ := h.calls
    obtain rfl : items = _ := h.stack
    rfl
  rw [hs]
  exact exec_closeCall f function leaves _ []

/-- An open call stays open if no call is closed, with the leaves that come. -/
theorem OpenSince.mono {c : Callback} {t : ProjectionCompiler} {leaves' : List Projection}
    (h : OpenSince past before function leaves s) (hexit : ¬ IsExit c) (hcalls : t.calls = s.calls)
    (hstack : t.stack.items = leaves'.reverse ++ s.stack.items)
    (hleaves : ∀ p ∈ leaves', p.isAggregate = false) :
    OpenSince (past ++ [c]) before function (leaves ++ leaves') t where
  entered := by
    obtain ⟨f, since, rfl, hf, hsince⟩ := h.entered
    refine ⟨f, since ++ [c], by simp, hf, ?_⟩
    rw [List.forall_mem_append]
    exact ⟨hsince, by simpa using hexit⟩
  closed := h.closed
  calls := hcalls.trans h.calls
  stack := by rw [hstack, h.stack, List.reverse_append, List.append_assoc]
  leaves := List.forall_mem_append.2 ⟨h.leaves, hleaves⟩

/-- A call that is opened is open since then. -/
theorem openSince_enter {f : FunctionName} (hf : Aggregate.ofFunction? f = some function)
    (hclosed : (afterAll visit {} past).calls = []) :
    OpenSince (past ++ [.enter (.call f)]) past function []
      { afterAll visit {} past with calls := [(function, (afterAll visit {} past).stack.size)] } where
  entered := ⟨f, [], rfl, hf, nofun⟩
  closed := hclosed
  calls := rfl
  stack := rfl
  leaves := nofun

/-! ## §3 The invariant -/

/-- Closing a call leaves an aggregate of a leaf, or only what was there before. -/
theorem OpenSince.flat_exit (h : OpenSince past before function leaves s)
    (hflat : ∀ p ∈ s.stack.items, p.IsFlat) :
    ∀ p ∈ (aggregated function leaves).toOption.toList ++ (afterAll visit {} before).stack.items,
      p.IsFlat := by
  rw [h.stack, List.forall_mem_append] at hflat
  rw [List.forall_mem_append]
  refine ⟨?_, hflat.2⟩
  intro p hp
  have hleaves := h.leaves
  rcases leaves with _ | ⟨leaf, _ | ⟨second, rest⟩⟩
  · cases hp
  · obtain rfl : p = .aggregate function leaf := List.mem_singleton.1 hp
    exact hleaves leaf (List.mem_singleton_self leaf)
  · cases hp

/-- A callback that closes no call keeps an open call open. -/
theorem InOrder.step {c : Callback} {t : ProjectionCompiler} (h : InOrder past s)
    (new : List Projection) (hexit : IsExit c → s.calls = []) (hcalls : t.calls = s.calls)
    (hstack : t.stack.items = new.reverse ++ s.stack.items)
    (hnew : ∀ p ∈ new, p.isAggregate = false) : InOrder (past ++ [c]) t where
  flat := by
    rw [hstack, List.forall_mem_append]
    refine ⟨?_, h.flat⟩
    intro p hp
    exact Projection.isFlat_of_isAggregate (hnew p (List.mem_reverse.1 hp))
  calls := by
    rcases h.calls with hclosed | ⟨before, function, leaves, hopen⟩
    · exact .inl (hcalls.trans hclosed)
    · have hnoExit : ¬ IsExit c := by
        intro hc
        have hnone := hexit hc
        rw [hopen.calls] at hnone
        cases hnone
      exact .inr ⟨before, function, leaves ++ new, hopen.mono hnoExit hcalls hstack hnew⟩

/-- **The state stays in order**, whatever callbacks are made. -/
theorem inOrder_afterAll (cs : List Callback) : InOrder cs (afterAll visit {} cs) := by
  apply afterAll_induction (motive := InOrder)
  · exact ⟨nofun, .inl rfl⟩
  · intro past c h
    rcases exec_visit_cases (afterAll visit {} past) c with
      ⟨l, rfl, hexec⟩ | ⟨f, function, rfl, hf, hclosed, hexec⟩ | ⟨⟨f, rfl⟩, hopen⟩ |
      ⟨outcome, hexec, _, hexit⟩
    · -- a leaf comes on top
      rw [hexec]
      refine h.step [l.projection] ?_ rfl rfl ?_
      · rintro ⟨f, hf⟩
        rcases l with _ | (_ | _) <;> cases hf
      · intro p hp
        obtain rfl : p = l.projection := List.mem_singleton.1 hp
        exact l.isAggregate_projection
    · -- a call is opened
      rw [hexec]
      exact ⟨h.flat, .inr ⟨past, function, [], openSince_enter hf hclosed⟩⟩
    · -- the open call is closed
      rcases h.calls with hnone | ⟨before, function, leaves, hsince⟩
      · exact absurd hnone hopen
      · rw [hsince.exec_exit f]
        exact ⟨hsince.flat_exit h.flat, .inl rfl⟩
    · -- nothing happens
      rw [hexec]
      exact h.step [] hexit rfl rfl nofun

/-! ## §4 What follows for the compiler -/

/-- Closing a call fails only for the number of its arguments. -/
theorem aggregated_eq_error {err : CompileError} (h : aggregated function leaves = .error err) :
    leaves.length ≠ 1 ∧ err = .unsupportedFunction (.arity function leaves.length) := by
  rcases leaves with _ | ⟨first, _ | ⟨second, rest⟩⟩
  · cases h
    exact ⟨nofun, rfl⟩
  · cases h
  · cases h
    exact ⟨by simp, rfl⟩

theorem OpenSince.eval_exit (h : OpenSince past before function leaves s) {f : FunctionName}
    {err : CompileError} (herr : (visit (.leave (.call f))).eval s = .error err) :
    aggregated function leaves = .error err := by
  rw [Run.eval, h.exec_exit f] at herr
  cases hresult : aggregated function leaves with
  | ok p =>
    rw [hresult] at herr
    cases herr
  | error err' =>
    rw [hresult] at herr
    cases herr
    rfl

theorem InOrder.length_calls_le (h : InOrder past s) : s.calls.length ≤ 1 := by
  rcases h.calls with hclosed | ⟨before, function, leaves, hopen⟩
  · simp [hclosed]
  · simp [hopen.calls]

/-- An open call began on a stack that is still there. -/
theorem InOrder.depth_le_size (h : InOrder past s) {depth : Nat}
    (hcall : (function, depth) ∈ s.calls) : depth ≤ s.stack.size := by
  rcases h.calls with hclosed | ⟨before, function', leaves, hopen⟩
  · rw [hclosed] at hcall
    cases hcall
  · rw [hopen.calls, List.mem_singleton] at hcall
    cases hcall
    rw [OperandStack.size, OperandStack.size, hopen.stack, List.length_append]
    exact Nat.le_add_left _ _

/-- So closing it never finds the stack too short. -/
theorem InOrder.blamesNoDepth (h : InOrder past s) (c : Callback) :
    BlamesNoDepth ((visit c).eval s) := by
  rcases exec_visit_cases s c with
    ⟨l, rfl, hexec⟩ | ⟨f, function, rfl, hf, hclosed, hexec⟩ | ⟨⟨f, rfl⟩, hopen⟩ |
    ⟨outcome, hexec, hblames, _⟩
  · rw [Run.eval, hexec]
    exact blamesNoDepth_ok
  · rw [Run.eval, hexec]
    exact blamesNoDepth_ok
  · rcases h.calls with hnone | ⟨before, function, leaves, hsince⟩
    · exact absurd hnone hopen
    · intro depth size herr
      obtain ⟨_, harity⟩ := aggregated_eq_error (hsince.eval_exit herr)
      cases harity
  · rw [Run.eval, hexec]
    exact hblames

/-- A call that is left with the wrong number of arguments gives back the stack that it found. -/
theorem InOrder.restores (h : InOrder past s) {g : FunctionName} {got : Nat}
    (herr : (visit (.leave (.call g))).eval s =
      .error (.unsupportedFunction (.arity function got))) :
    ∃ before leaves, OpenSince past before function leaves s ∧ got = leaves.length ∧ got ≠ 1 ∧
      ((visit (.leave (.call g))).exec s).2 = ⟨(afterAll visit {} before).stack, []⟩ := by
  rcases h.calls with hclosed | ⟨before, function', leaves, hopen⟩
  · rw [Run.eval] at herr
    have hexec : (visit (.leave (.call g))).exec s = _ := exec_closeCall_of_closed g hclosed
    rw [hexec] at herr
    cases herr
  · have hresult := hopen.eval_exit herr
    obtain ⟨hlength, harity⟩ := aggregated_eq_error hresult
    cases harity
    refine ⟨before, leaves, hopen, rfl, hlength, ?_⟩
    rw [hopen.exec_exit g, hresult]
    rfl

theorem finish_eq_ok_iff {p : Projection} :
    s.finish = .ok p ↔ s.calls = [] ∧ s.stack.items = [p] := by
  obtain ⟨⟨items⟩, calls⟩ := s
  constructor
  · intro h
    rcases calls with _ | ⟨call, calls⟩
    · rcases items with _ | ⟨q, _ | ⟨r, rest⟩⟩ <;> cases h
      exact ⟨rfl, rfl⟩
    · cases h
  · rintro ⟨hcalls, hitems⟩
    cases hcalls
    cases hitems
    rfl

/-- **Projection callbacks may come in any order.**  After any callbacks, failed ones included, at most
    one call is open, and its depth is not above the stack, so that no callback finds the stack too
    short; no aggregate has an aggregate as its argument; a call that is left with the wrong number of
    arguments gives back the stack that was there when the call was entered; and the compiler can
    be finished exactly if no call is open and one projection is left. -/
theorem callbacks_in_any_order (cs : List Callback) :
    (afterAll visit {} cs).calls.length ≤ 1 ∧
    (∀ function depth, (function, depth) ∈ (afterAll visit {} cs).calls →
      depth ≤ (afterAll visit {} cs).stack.size) ∧
    (∀ c depth size, (visit c).eval (afterAll visit {} cs) ≠
      .error (.internal (.stackShrank depth size))) ∧
    (∀ function argument,
      Projection.aggregate function argument ∈ (afterAll visit {} cs).stack.items →
        argument.isAggregate = false) ∧
    (∀ g function got, (visit (.leave (.call g))).eval (afterAll visit {} cs) =
        .error (.unsupportedFunction (.arity function got)) →
      ∃ before f since, cs = before ++ .enter (.call f) :: since ∧
        Aggregate.ofFunction? f = some function ∧
        (visit (.enter (.call f))).eval (afterAll visit {} before) = .ok () ∧
        (∀ f', .leave (.call f') ∉ since) ∧
        (afterAll visit {} (cs ++ [.leave (.call g)])).stack = (afterAll visit {} before).stack) ∧
    ∀ p, (afterAll visit {} cs).finish = .ok p ↔
      (afterAll visit {} cs).calls = [] ∧ (afterAll visit {} cs).stack.items = [p] := by
  have h := inOrder_afterAll cs
  refine ⟨h.length_calls_le, fun _ _ hcall => h.depth_le_size hcall, h.blamesNoDepth,
    fun _ _ hp => h.flat _ hp, ?_, fun _ => finish_eq_ok_iff⟩
  intro g function got herr
  obtain ⟨before, leaves, hopen, _, _, hrestored⟩ := h.restores herr
  obtain ⟨f, since, hcs, hf, hsince⟩ := hopen.entered
  refine ⟨before, f, since, hcs, hf, ?_, fun f' hin => hsince _ hin ⟨f', rfl⟩, ?_⟩
  · exact congrArg Prod.fst (exec_openCall hf hopen.closed)
  · rw [afterAll_concat, hrestored]

/-- A sum is entered over one column, an average is refused inside it, and the sum is left with two
    arguments under another name: only the column remains.  Leaving it once more changes nothing. -/
example : afterAll visit {}
    [.column { field := "a", type := .int }, .enter (.call { name := "sum" }),
      .column { field := "b", type := .int }, .enter (.call { name := "avg" }),
      .variable { field := "x", type := .int }, .leave (.call { name := "max" }),
      .leave (.call { name := "sum" })] = ⟨⟨[.column "a"]⟩, []⟩ :=
  rfl

end ProjectionCompiler

end QueryPipeline
