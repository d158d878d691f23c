import QueryPipeline.Assignment
import QueryPipeline.Proofs.Placeholder.Clause
import QueryPipeline.Proofs.Refusal

/-!
# Assigned values without a stack

An assigned value is a leaf.  A column is written as a path, a variable as its placeholder, and a
constant as its type says; every node is refused where it is entered.

## Main definitions

- `Leaf.assigned`: the finished clause of an assigned leaf.

## Main statements

- `compileAssignment_eq`: what the compiler makes of an expression.
- `numberedFrom_of_compileAssignment`: how the clause is numbered.
-/

namespace QueryPipeline

namespace Leaf

/-- The text of an assigned leaf. -/
def assignedText (s : Sequence) : Leaf → String
  | column c => fieldPath c.field
  | entry (.variable v) => s.nameOf (.variable v)
  | entry (.literal value type) => value.renderAs type

/-- The finished clause of an assigned leaf. -/
def assigned (s : Sequence) (l : Leaf) : CompiledFragment where
  fragment := l.assignedText s
  placeholders := ((PlaceholderTable.startingAt s).extend l.entries).remaining
  sequence := s.advance l.entries
  mirrored := false

/-- What stands for a leaf before its constant is written out. -/
def operand (s : Sequence) : Leaf → Operand
  | column c => .column c.field
  | entry (.variable v) => .variable (s.nameOf (.variable v))
  | entry (.literal value type) => .literal (s.nameOf (.literal value type))

end Leaf

namespace AssignmentCompiler

theorem exec_visit_leaf (s : Sequence) (l : Leaf) :
    (visit l.callback).exec (start s) =
      (.ok (), ⟨⟨[l.operand s]⟩, (PlaceholderTable.startingAt s).extend l.entries⟩) := by
  rcases l with c | (v | ⟨value, type⟩) <;> rfl

/-- Writing out the constants of a table with one entry. -/
theorem inline_nameOf (s : Sequence) (entry : PlaceholderEntry) :
    ((PlaceholderTable.startingAt s).extend [entry]).inline (s.nameOf entry) =
      (Leaf.entry entry).assignedText s := by
  have hget : ((PlaceholderTable.startingAt s).extend [entry]).entries.get? (s.nameOf entry) =
      some entry :=
    PlaceholderTable.get?_extend_startingAt.2 List.mem_cons_self
  have hname : IsName (s.nameOf entry) := isName_placeholderName entry (s.number entry)
  rw [PlaceholderTable.inline_eq, hname.replaceNames_eq, PlaceholderTable.literalText?, hget]
  cases entry <;> rfl

/-- A path has nothing to write out. -/
theorem inline_fieldPath (s : Sequence) (field : String) :
    (PlaceholderTable.startingAt s).inline (fieldPath field) = fieldPath field := by
  rw [PlaceholderTable.inline_eq]
  exact replaceNames_eq_self fun _ _ => rfl

theorem finish_eq_ok {o : Operand} {text : String} (h : operandText o = .ok text)
    (t : PlaceholderTable) :
    finish ⟨⟨[o]⟩, t⟩ = .ok ⟨t.inline text, t.remaining, t.sequence, false⟩ := by
  refine Run.bind_eq_ok_iff.2 ⟨o, rfl, ?_⟩
  exact Run.bind_eq_ok_iff.2 ⟨text, h, rfl⟩

/-- A leaf that stands alone is finished as it is assigned. -/
theorem finish_leaf (s : Sequence) (l : Leaf) :
    finish ⟨⟨[l.operand s]⟩, (PlaceholderTable.startingAt s).extend l.entries⟩ =
      .ok (l.assigned s) := by
  have htext : ∃ text, operandText (l.operand s) = .ok text ∧
      ((PlaceholderTable.startingAt s).extend l.entries).inline text = l.assignedText s := by
    rcases l with c | (v | ⟨value, type⟩)
    · exact ⟨_, rfl, inline_fieldPath s c.field⟩
    · exact ⟨_, rfl, inline_nameOf s (.variable v)⟩
    · exact ⟨_, rfl, inline_nameOf s (.literal value type)⟩
  obtain ⟨text, hoperand, hinline⟩ := htext
  rw [finish_eq_ok hoperand, hinline, PlaceholderTable.sequence_extend]
  rfl

end AssignmentCompiler

open AssignmentCompiler

/-- **What the compiler makes of an expression**: a leaf is assigned, a node is refused. -/
theorem compileAssignment_eq (s : Sequence) (e : Expr) :
    compileAssignment s e = (e.leaf.mapError .unsupportedInSetClause).map (Leaf.assigned s) := by
  unfold compileAssignment compile
  cases hleaf : e.leaf with
  | ok l =>
    rw [Expr.walk_of_leaf visit hleaf, exec_visit_leaf]
    exact finish_leaf s l
  | error c =>
    obtain ⟨rest, hwalk⟩ := Expr.walk_of_node visit hleaf
    have henter : (visit (.enter c)).exec (start s) = (.error (.unsupportedInSetClause c), start s) :=
      rfl
    rw [hwalk, Run.exec_bind, henter]
    rfl

theorem compileAssignment_eq_ok {s : Sequence} {e : Expr} {compiled : CompiledFragment}
    (h : compileAssignment s e = .ok compiled) :
    ∃ l, e.leaf = .ok l ∧ compiled = l.assigned s := by
  rw [compileAssignment_eq] at h
  cases hleaf : e.leaf with
  | ok l =>
    rw [hleaf] at h
    cases h
    exact ⟨l, rfl, rfl⟩
  | error c =>
    rw [hleaf] at h
    cases h

theorem numberedFrom_of_compileAssignment {s : Sequence} {e : Expr} {compiled : CompiledFragment}
    (h : compileAssignment s e = .ok compiled) : compiled.NumberedFrom s e := by
  obtain ⟨l, hleaf, rfl⟩ := compileAssignment_eq_ok h
  have hentries := Expr.entries_of_leaf hleaf
  exact ⟨by rw [hentries]; rfl, by rw [hentries]; rfl⟩

theorem onlyRefuses_compileAssignment (s : Sequence) (e : Expr) :
    OnlyRefuses (compileAssignment s e) := by
  rw [compileAssignment_eq]
  cases e.leaf with
  | ok l => exact .ok _
  | error c => exact .error rfl

end QueryPipeline
