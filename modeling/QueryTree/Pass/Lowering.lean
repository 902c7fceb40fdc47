import QueryTree.Pass.Basic
import QueryTree.Scalar.Fold

/-!
# Generic lowering

Simplifications that hold for every backend. Closed subtrees are folded first; then, from the leaves
up, each node takes its plain form:

* adjacent filters become one filter on a conjunction, and a filter on `TRUE` disappears;
* an ordering without keys disappears;
* `TRUE` disappears from a conjunction;
* a comparison has its literal on the right, and equality with NULL becomes a null test;
* a double negation disappears.
-/

namespace QueryTree

namespace Expr

/-- The constant TRUE. -/
def isTrue : Expr → Bool
  | const (.bool true) _ => true
  | _ => false

/-- The constant NULL. -/
def isNullLiteral : Expr → Bool
  | const .null _ => true
  | _ => false

/-- A filter over an input that is already in plain form. -/
def lowerFilter (input predicate : Expr) : Expr :=
  if predicate.isTrue then input
  else
    match input with
    | filter inner first => filter inner (mkBinary .and first predicate)
    | input => filter input predicate

/-- A conjunction without its literal `TRUE` sides. -/
def lowerAnd (left right : Expr) (t : LogicalType) : Expr :=
  if left.isTrue then right else if right.isTrue then left else binary .and left right t

/-- A comparison with its sides in order: equality with NULL is a null test. -/
def lowerOrdered (op : BinaryOperator) (left right : Expr) (t : LogicalType) : Expr :=
  match op with
  | .eq => if right.isNullLiteral then mkUnary .isNull left else binary op left right t
  | .notEq => if right.isNullLiteral then mkUnary .isNotNull left else binary op left right t
  | op => binary op left right t

/-- A comparison with its literal moved to the right. -/
def lowerComparison (op : BinaryOperator) (left right : Expr) (t : LogicalType) : Expr :=
  match op.flipped? with
  | some flipped =>
    if left.isConstant && !right.isConstant then lowerOrdered flipped right left t
    else lowerOrdered op left right t
  | none => lowerOrdered op left right t

/-- A negation, which cancels with one directly below it. -/
def lowerNot (operand : Expr) (t : LogicalType) : Expr :=
  match operand with
  | unary .not inner _ => inner
  | operand => unary .not operand t

/-- The plain form of a node whose subtrees are in plain form. -/
def lowerNode : Expr → Expr
  | filter input predicate => lowerFilter input predicate
  | order input [] => input
  | binary op left right t =>
    if op = .and then lowerAnd left right t
    else if op.isComparison then lowerComparison op left right t
    else binary op left right t
  | unary .not operand t => lowerNot operand t
  | e => e

/-- Fold closed subtrees, then bring every node into plain form. -/
def lower (e : Expr) : Expr := e.fold.transformUp lowerNode

end Expr

/-- Lowering of a query body, which holds no lambda. -/
def lowerBody (e : Expr) : Except QueryError Expr :=
  if e.any Expr.isLambda then .error (.unsupported .lambda "lambda nested inside a query body")
  else .ok e.lower

/-- Generic lowering as a pass. -/
def Pass.lowering : Pass where
  name := "generic_lowering"
  description := "Folds constants and canonicalizes equivalent node shapes"
  run := lowerBody

end QueryTree
