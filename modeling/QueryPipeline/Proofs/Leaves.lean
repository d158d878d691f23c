import QueryPipeline.Callback
import QueryPipeline.Placeholder.Table

/-!
# Leaves of an expression

An expression is compiled leaf by leaf, from left to right.  Variables and constants take a
placeholder each, in that order, and columns take none.

## Main definitions

- `Expr.induction`: induction over expressions, with one named case per construct.
- `Expr.columns`, `Expr.entries`, `Expr.vars`, `Expr.constants`: the leaves, from left to right.
- `Expr.leaf`: an expression as a leaf, or as a node with a head.
-/

namespace QueryPipeline

/-! ## §1 Induction -/

/-- Induction over expressions.  In a call the statement is at hand for every argument. -/
@[elab_as_elim, induction_eliminator]
theorem Expr.induction {motive : Expr → Prop}
    (and : ∀ left right, motive left → motive right → motive (.and left right))
    (or : ∀ left right, motive left → motive right → motive (.or left right))
    (not : ∀ operand, motive operand → motive (.not operand))
    (compare : ∀ op left right, motive left → motive right → motive (.compare op left right))
    (isNull : ∀ operand, motive operand → motive (.isNull operand))
    (member : ∀ operand source, motive operand → motive (.member operand source))
    (arithmetic : ∀ op left right, motive left → motive right →
      motive (.arithmetic op left right))
    (call : ∀ f args, (∀ a ∈ args, motive a) → motive (.call f args))
    (column : ∀ c, motive (.column c))
    (var : ∀ v, motive (.variable v))
    (constant : ∀ value type, motive (.constant value type))
    (e : Expr) : motive e := by
  -- the arguments of a call are a list, for which the recursor wants a statement of its own
  refine @Expr.rec motive (fun args => ∀ a ∈ args, motive a)
    and or not compare isNull member arithmetic call column var constant ?nil ?cons e
  case nil => exact fun a ha => absurd ha List.not_mem_nil
  case cons =>
    intro first rest hfirst hrest a ha
    rcases List.mem_cons.1 ha with rfl | ha
    · exact hfirst
    · exact hrest a ha

/-! ## §2 Leaves from left to right -/

/-- The column that a callback announces. -/
def Callback.column? : Callback → Option Column
  | .column c => some c
  | _ => none

/-- What a callback wants a placeholder for. -/
def Callback.entry? : Callback → Option PlaceholderEntry
  | .variable v => some (.variable v)
  | .literal value type => some (.literal value type)
  | _ => none

/-- The constant that wants a placeholder, with the type it is declared with. -/
def PlaceholderEntry.literal? : PlaceholderEntry → Option (Value × AttributeType)
  | .variable _ => none
  | .literal value type => some (value, type)

/-- What is picked from callbacks is picked from leaves only. -/
def Callback.PicksLeaves {α : Type} (pick : Callback → Option α) : Prop :=
  ∀ c, pick (.enter c) = none ∧ pick (.between c) = none ∧ pick (.leave c) = none

namespace Expr

/-- The columns of an expression, from left to right. -/
def columns (e : Expr) : List Column :=
  e.trace.filterMap Callback.column?

/-- The variables and constants of an expression, from left to right. -/
def entries (e : Expr) : List PlaceholderEntry :=
  e.trace.filterMap Callback.entry?

/-- The variables of an expression, from left to right. -/
def vars (e : Expr) : List Variable :=
  e.entries.filterMap PlaceholderEntry.variable?

/-- The constants of an expression, from left to right. -/
def constants (e : Expr) : List (Value × AttributeType) :=
  e.entries.filterMap PlaceholderEntry.literal?

theorem mem_constants_iff {e : Expr} {value : Value} {type : AttributeType} :
    (value, type) ∈ e.constants ↔ .literal value type ∈ e.entries := by
  rw [constants, List.mem_filterMap]
  constructor
  · rintro ⟨entry, hentry, hliteral⟩
    cases entry <;> cases hliteral
    exact hentry
  · intro h
    exact ⟨_, h, rfl⟩

section

variable {α : Type} {pick : Callback → Option α} (h : Callback.PicksLeaves pick) (c : Construct)
  (a b : List Callback)

include h

theorem filterMap_around :
    (Callback.enter c :: a ++ [Callback.leave c]).filterMap pick = a.filterMap pick := by
  obtain ⟨henter, _, hleave⟩ := h c
  simp [henter, hleave]

-- the callbacks of a node are dropped, those of its operands stay in order
theorem filterMap_aroundTwo :
    (Callback.enter c :: a ++ Callback.between c :: b ++ [Callback.leave c]).filterMap pick =
      a.filterMap pick ++ b.filterMap pick := by
  obtain ⟨henter, hbetween, hleave⟩ := h c
  simp [henter, hbetween, hleave]

end

theorem picksLeaves_column? : Callback.PicksLeaves Callback.column? :=
  fun _ => ⟨rfl, rfl, rfl⟩

theorem picksLeaves_entry? : Callback.PicksLeaves Callback.entry? :=
  fun _ => ⟨rfl, rfl, rfl⟩

variable (l r e : Expr) (op : CompareOp) (c : Column) (v : Variable) (value : Value)
  (type : AttributeType)

@[simp] theorem columns_and : (Expr.and l r).columns = l.columns ++ r.columns :=
  filterMap_aroundTwo picksLeaves_column? .and l.trace r.trace

@[simp] theorem columns_or : (Expr.or l r).columns = l.columns ++ r.columns :=
  filterMap_aroundTwo picksLeaves_column? .or l.trace r.trace

@[simp] theorem columns_not : (Expr.not e).columns = e.columns :=
  filterMap_around picksLeaves_column? .not e.trace

@[simp] theorem columns_compare : (Expr.compare op l r).columns = l.columns ++ r.columns :=
  filterMap_aroundTwo picksLeaves_column? (.compare op) l.trace r.trace

@[simp] theorem columns_isNull : (Expr.isNull e).columns = e.columns :=
  filterMap_around picksLeaves_column? .isNull e.trace

@[simp] theorem columns_column : (Expr.column c).columns = [c] :=
  rfl

@[simp] theorem entries_and : (Expr.and l r).entries = l.entries ++ r.entries :=
  filterMap_aroundTwo picksLeaves_entry? .and l.trace r.trace

@[simp] theorem entries_or : (Expr.or l r).entries = l.entries ++ r.entries :=
  filterMap_aroundTwo picksLeaves_entry? .or l.trace r.trace

@[simp] theorem entries_not : (Expr.not e).entries = e.entries :=
  filterMap_around picksLeaves_entry? .not e.trace

@[simp] theorem entries_compare : (Expr.compare op l r).entries = l.entries ++ r.entries :=
  filterMap_aroundTwo picksLeaves_entry? (.compare op) l.trace r.trace

@[simp] theorem entries_isNull : (Expr.isNull e).entries = e.entries :=
  filterMap_around picksLeaves_entry? .isNull e.trace

@[simp] theorem entries_member (source : String) : (e.member source).entries = e.entries :=
  filterMap_around picksLeaves_entry? (.member source) e.trace

@[simp] theorem entries_arithmetic (op : MathOp) :
    (Expr.arithmetic op l r).entries = l.entries ++ r.entries :=
  filterMap_aroundTwo picksLeaves_entry? (.arithmetic op) l.trace r.trace

@[simp] theorem entries_column : (Expr.column c).entries = [] :=
  rfl

@[simp] theorem entries_variable : (Expr.variable v).entries = [.variable v] :=
  rfl

@[simp] theorem entries_constant : (Expr.constant value type).entries = [.literal value type] :=
  rfl

/-- The leaves of a call are those of its arguments. -/
theorem filterMap_trace_call {α : Type} {pick : Callback → Option α}
    (h : Callback.PicksLeaves pick) (f : FunctionName) (args : List Expr) :
    (Expr.call f args).trace.filterMap pick = args.flatMap fun a => a.trace.filterMap pick := by
  have hargs : (traceAll args).filterMap pick = args.flatMap fun a => a.trace.filterMap pick := by
    induction args with
    | nil => rfl
    | cons first rest ih => rw [traceAll, List.filterMap_append, ih, List.flatMap_cons]
  exact (filterMap_around h (.call f) (traceAll args)).trans hargs

theorem columns_call (f : FunctionName) (args : List Expr) :
    (Expr.call f args).columns = args.flatMap columns :=
  filterMap_trace_call picksLeaves_column? f args

theorem entries_call (f : FunctionName) (args : List Expr) :
    (Expr.call f args).entries = args.flatMap entries :=
  filterMap_trace_call picksLeaves_entry? f args

end Expr

/-! ## §3 Leaves and nodes -/

/-- An expression without operands. -/
inductive Leaf where
  | column (c : Column)
  /-- A variable or a constant. -/
  | entry (entry : PlaceholderEntry)
deriving Repr, DecidableEq

namespace Leaf

/-- How a leaf is announced. -/
def callback : Leaf → Callback
  | column c => .column c
  | entry (.variable v) => .variable v
  | entry (.literal value type) => .literal value type

def columns : Leaf → List Column
  | column c => [c]
  | entry _ => []

def entries : Leaf → List PlaceholderEntry
  | column _ => []
  | entry a => [a]

end Leaf

namespace Expr

/-- The leaf that an expression is, or else the head of its node. -/
def leaf : Expr → Except Construct Leaf
  | .and _ _ => .error .and
  | .or _ _ => .error .or
  | .not _ => .error .not
  | .compare op _ _ => .error (.compare op)
  | .isNull _ => .error .isNull
  | .member _ source => .error (.member source)
  | .arithmetic op _ _ => .error (.arithmetic op)
  | .call f _ => .error (.call f)
  | .column c => .ok (.column c)
  | .variable v => .ok (.entry (.variable v))
  | .constant value type => .ok (.entry (.literal value type))

variable {e : Expr} {l : Leaf}

theorem columns_of_leaf (h : e.leaf = .ok l) : e.columns = l.columns := by
  cases e <;> cases h <;> rfl

theorem entries_of_leaf (h : e.leaf = .ok l) : e.entries = l.entries := by
  cases e <;> cases h <;> rfl

variable {m : Type → Type} [Monad m] (visit : Callback → m Unit)

theorem walk_of_leaf (h : e.leaf = .ok l) : e.walk visit = visit l.callback := by
  cases e <;> cases h <;> rfl

/-- A node is announced before anything else happens. -/
theorem walk_of_node {c : Construct} (h : e.leaf = .error c) :
    ∃ rest, e.walk visit = visit (.enter c) >>= fun _ => rest := by
  cases e <;> cases h <;> exact ⟨_, rfl⟩

end Expr

end QueryPipeline
