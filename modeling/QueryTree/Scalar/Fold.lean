import QueryTree.Expr.Traverse
import QueryTree.Scalar.Eval

/-!
# Folding closed subtrees

A subtree is closed when it can be evaluated with nothing bound: it has no parameter, column,
aggregate, lambda or relational node, and calls built-in functions only. `Expr.fold` goes from the
root down and replaces the outermost closed subtrees by constants of their values. Where the
evaluation of a closed subtree fails, the subtree stays and its own subtrees are folded; it is not
evaluated again after that.
-/

namespace QueryTree.Expr

mutual

/-- The tree can be evaluated with nothing bound. -/
def isClosed : Expr → Bool
  | const .. => true
  | member target _ _ => isClosed target
  | binary _ left right _ => isClosed left && isClosed right
  | unary _ operand _ => isClosed operand
  | call function args _ => Builtin.isName function && areClosed args
  | param .. | column .. | aggregate .. | lambda .. | scan .. | filter .. | project .. | order ..
  | limit .. | join .. | setOp .. => false

/-- All of the trees are closed. -/
def areClosed : List Expr → Bool
  | [] => true
  | e :: rest => isClosed e && areClosed rest

end

/-- The type of a folded constant: the declared one, unless the number computed is of the other
kind. -/
def foldedType (declared : LogicalType) : Value → LogicalType
  | .float _ => if declared.isFloat then declared else .float64
  | .int _ => if declared.isFloat then .int64 else declared
  | _ => declared

/-- The constant of a closed node that has a value and is no constant yet. -/
def folded? (e : Expr) : Option Expr :=
  if e.isClosed && !e.isConstant then
    match e.evaluate .empty with
    | .ok v => some (.const v (foldedType e.type v))
    | .error _ => none
  else none

/-- Replace the outermost closed subtrees that have a value by the constants of their values. -/
def fold (e : Expr) : Expr := e.replaceOutermost folded?

end QueryTree.Expr
