import Mathlib.Logic.Relation
import QueryPipeline.Expr

/-!
# Rewriting inside expressions

A rule relates expressions to what they may be replaced by.  It can be applied to any subexpression of
an expression, at any depth, and any number of times.

## Main definitions

- `Expr.Frame`, `Expr.Frame.fill`: a node with one operand left out, and with that operand put in.
- `Expr.RewritesOnce`, `Expr.Rewrites`: one subexpression replaced as a rule says, and any number.
- `Expr.Congruence`: relations that every node passes on from its operands.

## Main statements

- `Expr.Congruence.of_rewrites`: what a congruence says of a rule it says of rewriting.
-/

namespace QueryPipeline

namespace Expr

/-! ## §1 Replacing subexpressions -/

/-- A node with one operand left out. -/
inductive Frame where
  | andLeft (right : Expr)
  | andRight (left : Expr)
  | orLeft (right : Expr)
  | orRight (left : Expr)
  | not
  | compareLeft (op : CompareOp) (right : Expr)
  | compareRight (op : CompareOp) (left : Expr)
  | isNull
  | member (source : String)
  | arithmeticLeft (op : MathOp) (right : Expr)
  | arithmeticRight (op : MathOp) (left : Expr)
  /-- A call, with the arguments before and after the one that is left out. -/
  | argument (f : FunctionName) (before after : List Expr)

/-- The node with its missing operand put in. -/
def Frame.fill : Frame → Expr → Expr
  | andLeft right, e => .and e right
  | andRight left, e => .and left e
  | orLeft right, e => .or e right
  | orRight left, e => .or left e
  | not, e => .not e
  | compareLeft op right, e => .compare op e right
  | compareRight op left, e => .compare op left e
  | isNull, e => .isNull e
  | member source, e => .member e source
  | arithmeticLeft op right, e => .arithmetic op e right
  | arithmeticRight op left, e => .arithmetic op left e
  | argument f before after, e => .call f (before ++ e :: after)

/-- One subexpression replaced as a rule says. -/
inductive RewritesOnce (rule : Expr → Expr → Prop) : Expr → Expr → Prop where
  | here {a b : Expr} (h : rule a b) : RewritesOnce rule a b
  | inside (frame : Frame) {a b : Expr} (h : RewritesOnce rule a b) :
      RewritesOnce rule (frame.fill a) (frame.fill b)

/-- Any number of subexpressions replaced as a rule says. -/
def Rewrites (rule : Expr → Expr → Prop) : Expr → Expr → Prop :=
  Relation.ReflTransGen (RewritesOnce rule)

/-! ## §2 Congruences -/

/-- A relation that goes on from the operands of a node to the node. -/
structure Congruence (R : Expr → Expr → Prop) : Prop where
  refl : ∀ e, R e e
  trans : ∀ {a b c}, R a b → R b c → R a c
  and : ∀ {l l' r r'}, R l l' → R r r' → R (.and l r) (.and l' r')
  or : ∀ {l l' r r'}, R l l' → R r r' → R (.or l r) (.or l' r')
  not : ∀ {a b}, R a b → R (.not a) (.not b)
  compare : ∀ op {l l' r r'}, R l l' → R r r' → R (.compare op l r) (.compare op l' r')
  isNull : ∀ {a b}, R a b → R (.isNull a) (.isNull b)
  member : ∀ source {a b}, R a b → R (.member a source) (.member b source)
  arithmetic : ∀ op {l l' r r'}, R l l' → R r r' → R (.arithmetic op l r) (.arithmetic op l' r')
  argument : ∀ f before after {a b}, R a b →
    R (.call f (before ++ a :: after)) (.call f (before ++ b :: after))

namespace Congruence

variable {R rule : Expr → Expr → Prop} (h : Congruence R)

include h

theorem fill (frame : Frame) {a b : Expr} (hab : R a b) : R (frame.fill a) (frame.fill b) := by
  -- the operands beside the hole are the same on both sides
  cases frame with
  | andLeft right => exact h.and hab (h.refl right)
  | andRight left => exact h.and (h.refl left) hab
  | orLeft right => exact h.or hab (h.refl right)
  | orRight left => exact h.or (h.refl left) hab
  | not => exact h.not hab
  | compareLeft op right => exact h.compare op hab (h.refl right)
  | compareRight op left => exact h.compare op (h.refl left) hab
  | isNull => exact h.isNull hab
  | member source => exact h.member source hab
  | arithmeticLeft op right => exact h.arithmetic op hab (h.refl right)
  | arithmeticRight op left => exact h.arithmetic op (h.refl left) hab
  | argument f before after => exact h.argument f before after hab

theorem of_rewritesOnce (hrule : ∀ a b, rule a b → R a b) {e e' : Expr}
    (hstep : RewritesOnce rule e e') : R e e' := by
  induction hstep with
  | here hab => exact hrule _ _ hab
  | inside frame _ ih => exact h.fill frame ih

/-- **What a congruence says of a rule** it says of any number of replacements by that rule. -/
theorem of_rewrites (hrule : ∀ a b, rule a b → R a b) {e e' : Expr} (hrewrites : Rewrites rule e e') :
    R e e' := by
  induction hrewrites with
  | refl => exact h.refl e
  | tail _ hstep ih => exact h.trans ih (h.of_rewritesOnce hrule hstep)

end Congruence

end Expr

end QueryPipeline
