/-!
# Comparison and arithmetic operators

A comparison has two spellings: its symbol in messages and its operator name in filter documents.
`CompareOp.mirrored` is the comparison that holds of the exchanged operands.
-/

namespace QueryPipeline

/-! ## §1 Comparisons -/

inductive CompareOp where
  | eq
  | ne
  | lt
  | le
  | gt
  | ge
deriving Repr, DecidableEq

namespace CompareOp

def all : List CompareOp :=
  [eq, ne, lt, le, gt, ge]

def name : CompareOp → String
  | eq => "eq"
  | ne => "ne"
  | lt => "lt"
  | le => "le"
  | gt => "gt"
  | ge => "ge"

def ofName? (s : String) : Option CompareOp :=
  all.find? (·.name == s)

@[simp] theorem ofName?_name (op : CompareOp) : ofName? op.name = some op := by
  cases op <;> rfl

def symbol : CompareOp → String
  | eq => "=="
  | ne => "!="
  | lt => "<"
  | le => "<="
  | gt => ">"
  | ge => ">="

/-- The operator name in filter documents. -/
def document : CompareOp → String
  | eq => "$eq"
  | ne => "$ne"
  | lt => "$lt"
  | le => "$lte"
  | gt => "$gt"
  | ge => "$gte"

/-- The comparison of the exchanged operands: `a < b` says the same as `b > a`. -/
def mirrored : CompareOp → CompareOp
  | eq => eq
  | ne => ne
  | lt => gt
  | le => ge
  | gt => lt
  | ge => le

/-- Exchanging the operands twice changes nothing. -/
@[simp] theorem mirrored_mirrored (op : CompareOp) : op.mirrored.mirrored = op := by
  cases op <;> rfl

end CompareOp

/-! ## §2 Arithmetic -/

inductive MathOp where
  | add
  | sub
  | mul
  | div
  | mod
deriving Repr, DecidableEq

namespace MathOp

def all : List MathOp :=
  [add, sub, mul, div, mod]

def name : MathOp → String
  | add => "add"
  | sub => "sub"
  | mul => "mul"
  | div => "div"
  | mod => "mod"

def ofName? (s : String) : Option MathOp :=
  all.find? (·.name == s)

@[simp] theorem ofName?_name (op : MathOp) : ofName? op.name = some op := by
  cases op <;> rfl

def symbol : MathOp → String
  | add => "+"
  | sub => "-"
  | mul => "*"
  | div => "/"
  | mod => "%"

end MathOp

end QueryPipeline
