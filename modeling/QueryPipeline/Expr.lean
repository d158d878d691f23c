import QueryPipeline.Operator
import QueryPipeline.Value

/-!
# Expressions

Clauses of a query are expression trees over columns of the stored documents, variables whose value
arrives with each invocation, and constants.

## Main definitions

- `Column`, `Variable`, `FunctionName`: what the leaves and the calls refer to.
- `Variable.key`: the name under which a variable's value is supplied.
- `Construct`: the head of an operator node, without its operands.
- `Expr`: expression trees.
-/

namespace QueryPipeline

/-! ## §1 References -/

/-- A column of the stored documents. -/
structure Column where
  table : Option String := none
  field : String
  type : AttributeType
deriving Repr, DecidableEq

/-- A variable whose value is supplied when the compiled text is resolved. -/
structure Variable where
  id : Option String := none
  source : Option String := none
  field : String
  type : AttributeType
deriving Repr, DecidableEq

/-- The name under which the value of a variable is supplied: its own identifier if it has one,
    else its field qualified by its source, else the bare field. -/
def Variable.key (v : Variable) : String :=
  match v.id, v.source with
  | some id, _ => id
  | none, some source => source ++ "." ++ v.field
  | none, none => v.field

/-- A function name with an optional qualifier. -/
structure FunctionName where
  qualifier : Option String := none
  name : String
deriving Repr, DecidableEq

/-- The function name as it is written in messages. -/
def FunctionName.qualified (f : FunctionName) : String :=
  match f.qualifier with
  | some q => q ++ ":" ++ f.name
  | none => f.name

/-! ## §2 Operator nodes -/

/-- The head of an operator node. -/
inductive Construct where
  | and
  | or
  | not
  | compare (op : CompareOp)
  | isNull
  | member (source : String)
  | arithmetic (op : MathOp)
  | call (function : FunctionName)
deriving Repr, DecidableEq

/-- How a construct is named in messages. -/
def Construct.describe : Construct → String
  | and => "AND"
  | or => "OR"
  | not => "NOT"
  | compare op => "comparison " ++ op.symbol
  | isNull => "IS NULL"
  | member source => "IN " ++ source
  | arithmetic op => "arithmetic operator " ++ op.symbol
  | call function => "function " ++ function.qualified

/-! ## §3 Expression trees -/

inductive Expr where
  | and (left right : Expr)
  | or (left right : Expr)
  | not (operand : Expr)
  | compare (op : CompareOp) (left right : Expr)
  | isNull (operand : Expr)
  /-- Membership of the operand in a named source. -/
  | member (operand : Expr) (source : String)
  | arithmetic (op : MathOp) (left right : Expr)
  | call (function : FunctionName) (args : List Expr)
  | column (c : Column)
  | variable (v : Variable)
  /-- A constant, with the type it is declared with. -/
  | constant (value : Value) (type : AttributeType)
deriving Repr

/-- A constant declared with its own type; null is declared as an object. -/
def Expr.ofValue (v : Value) : Expr :=
  .constant v (v.type?.getD .object)

end QueryPipeline
