import QueryPipeline.Expr

/-!
# Compile errors

Every refusal names its cause: what kind of rule was broken, and the operands or names that broke
it.  The wording of all of them is in the `message` functions of this module.

## Main definitions

- `OperandKind`: what an operand is, as far as messages tell.
- `Aggregate`: the aggregate functions, which appear in causes by name.
- `CompileError`: the nine kinds of error, each with its cause.
- `CompileError.message`: the full text of an error.
-/

namespace QueryPipeline

/-! ## §1 What errors speak of -/

/-- What an operand is. -/
inductive OperandKind where
  | column
  | variable
  | literal
  | condition
deriving Repr, DecidableEq

/-- How an operand kind is named in messages. -/
def OperandKind.describe : OperandKind → String
  | column => "column reference"
  | .variable => "runtime variable"
  | literal => "literal"
  | condition => "condition"

inductive Aggregate where
  | sum
  | avg
  | min
  | max
deriving Repr, DecidableEq

namespace Aggregate

def all : List Aggregate :=
  [sum, avg, min, max]

def name : Aggregate → String
  | sum => "sum"
  | avg => "avg"
  | min => "min"
  | max => "max"

/-- The accumulator's operator in group and project stages. -/
def operator : Aggregate → String
  | sum => "$sum"
  | avg => "$avg"
  | min => "$min"
  | max => "$max"

/-- The aggregate a function name stands for.  Names are exact, and a qualified name stands for
    none. -/
def ofFunction? (f : FunctionName) : Option Aggregate :=
  match f.qualifier with
  | some _ => none
  | none => all.find? (·.name == f.name)

end Aggregate

/-- The two ways of joining conditions. -/
inductive Junction where
  | and
  | or
deriving Repr, DecidableEq

/-- The operator name of a junction in filter documents. -/
def Junction.document : Junction → String
  | and => "$and"
  | or => "$or"

/-! ## §2 Causes -/

/-- Why operands do not compose to a condition. -/
inductive CompositionFault where
  /-- A junction met something other than two conditions. -/
  | notTwoConditions (junction : Junction) (left right : OperandKind)
  /-- A negation met a condition on several fields. -/
  | negatedCompound
  /-- A negation met something other than a condition. -/
  | negatedOperand (found : OperandKind)
  /-- A whole filter was something other than a condition. -/
  | bareRoot (found : OperandKind)
deriving Repr, DecidableEq

/-- Why an operation is refused. -/
inductive OperationFault where
  /-- Filters have no room for this construct. -/
  | inFilter (construct : Construct)
  /-- Projections have no room for this construct. -/
  | inProjection (construct : Construct)
  /-- A grouping or ordering key was something other than a column. -/
  | keyNotColumn (rendered : String)
  /-- An output was named like the grouping key without being one. -/
  | groupKeyCollision
  /-- An update assigned nothing. -/
  | emptyUpdate
deriving Repr, DecidableEq

/-- Why a function call is refused. -/
inductive FunctionFault where
  /-- The function is not known here. -/
  | unknown (function : FunctionName)
  /-- An aggregate was called inside the argument of another one. -/
  | nested (inner outer : Aggregate)
  /-- An aggregate was called with other than one argument. -/
  | arity (function : Aggregate) (got : Nat)
deriving Repr, DecidableEq

/-- Ways in which a compiler can find its own state out of order. -/
inductive InternalFault where
  /-- An operand was needed and none was there. -/
  | stackEmpty
  /-- Two operands were needed and fewer were there. -/
  | stackShort (found : Nat)
  /-- The stack was to be cut at a depth it no longer has. -/
  | stackShrank (depth now : Nat)
  /-- A traversal left nothing behind. -/
  | noRoot
  /-- A traversal left several operands behind. -/
  | severalRoots (count : Nat)
  /-- An assigned value was a condition. -/
  | conditionAssigned
  /-- A call was left that was never entered. -/
  | exitWithoutEnter (function : FunctionName)
  /-- Calls were entered and never left. -/
  | callsLeftOpen (count : Nat)
  /-- Two clauses share a placeholder. -/
  | sharedPlaceholder (name : String)
  /-- A placeholder occurs in no text outside quotes. -/
  | unreachedPlaceholder (name : String)
deriving Repr, DecidableEq

/-- The kinds of compile errors. -/
inductive CompileError where
  | unsupportedComposition (fault : CompositionFault)
  | unsupportedComparison (op : CompareOp) (left right : OperandKind)
  | unsupportedNullCheck (found : OperandKind)
  | unsupportedInHaving (construct : Construct)
  | unsupportedOperation (fault : OperationFault)
  | unsupportedFunction (fault : FunctionFault)
  | unsupportedInSetClause (construct : Construct)
  | internal (fault : InternalFault)
  | missingBinding (placeholder key : String)
deriving Repr, DecidableEq

/-! ## §3 Wording -/

def CompositionFault.message : CompositionFault → String
  | notTwoConditions j l r =>
    j.document ++ " needs two conditions, found " ++ l.describe ++ " and " ++ r.describe
  | negatedCompound => "NOT over a condition spanning several fields"
  | negatedOperand k => "NOT needs a condition, found " ++ k.describe
  | bareRoot k => "a filter must be a condition, found a bare " ++ k.describe

def OperationFault.message : OperationFault → String
  | inFilter c => c.describe
  | inProjection c => c.describe ++ " in a projection"
  | keyNotColumn r => "grouping and ordering keys must be columns, found " ++ r
  | groupKeyCollision => "output attribute '_id' collides with the group key"
  | emptyUpdate => "SET clause without assignments"

def FunctionFault.message : FunctionFault → String
  | unknown f => f.qualified
  | nested inner outer => inner.name ++ " nested inside " ++ outer.name
  | arity f got => f.name ++ " expects 1 argument, got " ++ toString got

def InternalFault.message : InternalFault → String
  | stackEmpty => "operand stack underflow"
  | stackShort n =>
    "operand stack underflow: binary operator needs 2 operands, found " ++ toString n
  | stackShrank d n =>
    "operand stack shrank below depth " ++ toString d ++ " (now " ++ toString n ++ ")"
  | noRoot => "traversal finished with an empty operand stack"
  | severalRoots n => "traversal finished with " ++ toString n ++ " operands on the stack"
  | conditionAssigned => "condition produced while compiling a SET value"
  | exitWithoutEnter f => "exit of " ++ f.qualified ++ " without a matching enter"
  | callsLeftOpen n => toString n ++ " aggregate call(s) never exited"
  | sharedPlaceholder n => "placeholder " ++ n ++ " allocated by two clauses of one query"
  | unreachedPlaceholder n => "placeholder " ++ n ++ " was never reached outside quoted text"

/-- The full text of a compile error. -/
def CompileError.message : CompileError → String
  | unsupportedComposition f => "Unsupported composition: " ++ f.message
  | unsupportedComparison op l r =>
    "Unsupported comparison " ++ op.symbol ++ " between " ++ l.describe ++ " and " ++ r.describe
  | unsupportedNullCheck k => "Unsupported null check on " ++ k.describe
  | unsupportedInHaving c => c.describe ++ " is not supported in a HAVING clause"
  | unsupportedOperation f => "Unsupported operation: " ++ f.message
  | unsupportedFunction f => "Unsupported function: " ++ f.message
  | unsupportedInSetClause c => c.describe ++ " is not supported in a SET clause"
  | internal f => "Internal compiler error: " ++ f.message
  | missingBinding p k => "No binding supplied for '" ++ k ++ "' (placeholder " ++ p ++ ")"

end QueryPipeline
