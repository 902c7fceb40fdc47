import QueryTree.Error
import QueryTree.Expr.Traverse
import QueryTree.Scalar.Fold
import QueryTree.Scalar.Substitute

/-!
# Finding the backend of a query

A query names its backend by a literal: a backend itself, or a table bound to one. The search takes
the first node typed as a backend, and if there is none the first node typed as a table. It looks
at the body as written, then with the arguments in place of the parameters, and last with every
closed subtree folded.
-/

namespace QueryTree

/-- How a backend was found. -/
inductive Resolution where
  /-- Given by the caller. -/
  | explicit
  /-- A literal in the body as written. -/
  | literal
  /-- A literal once arguments replaced parameters. -/
  | substitution
  /-- A literal once closed subtrees were folded. -/
  | partialEvaluation
deriving DecidableEq, Repr

namespace Resolution

/-- The resolution in words. -/
def text : Resolution → String
  | explicit => "explicit"
  | literal => "literal"
  | substitution => "substitution"
  | partialEvaluation => "partial evaluation"

/-- The resolution as a name. -/
def label : Resolution → String
  | explicit => "Explicit"
  | literal => "Literal"
  | substitution => "Substitution"
  | partialEvaluation => "PartialEvaluation"

end Resolution

/-- A backend and how it was found. -/
structure Resolved where
  provider : ProviderId
  resolution : Resolution
deriving DecidableEq, Repr

/-- The finding in words. -/
def Resolved.text (r : Resolved) : String :=
  fieldList "ResolvedProvider"
    [("provider", Quoted.text r.provider.name), ("resolution", r.resolution.label)]

namespace Expr

/-- The first node typed as a backend, else the first one typed as a table. -/
def providerNode? (e : Expr) : Option Expr :=
  (e.findTyped? LogicalType.isProvider).or (e.findTyped? LogicalType.isQueryable)

/-- The backend that a literal holds. -/
def literalProvider? : Expr → Option ProviderId
  | const v _ => v.boundProvider?
  | _ => none

/-- The backend at the node where the search ends. -/
def namedProvider? (e : Expr) : Option ProviderId := e.providerNode?.bind literalProvider?

/-- Why no backend was found in a body after folding. -/
def unresolvedDetail (e : Expr) : String :=
  match e.providerNode? with
  | some (.const _ t) => s!"{t.text} is not bound to a provider; supply one explicitly"
  | some node =>
    s!"{node.kind.text} node of type {node.type.text} could not be reduced to a literal"
  | none => "no provider or queryable source appears in the query"

end Expr

namespace Query

/-- The body with arguments in place of parameters. -/
def bind (q : Query) (args : List Value) : Expr :=
  q.body.substitute (Bindings.ofArguments q.params args)

/-- The last attempts: the bound body as far as there are arguments, then everything closed folded.
-/
def resolveFolded (bound : Expr) : Except QueryError Resolved :=
  match bound.fold.namedProvider? with
  | some p => .ok ⟨p, .partialEvaluation⟩
  | none => .error (.unresolved bound.fold.unresolvedDetail)

/-- Find the backend of a query that is called with these arguments. -/
def resolve (q : Query) (args : List Value) : Except QueryError Resolved :=
  match q.body.namedProvider? with
  | some p => .ok ⟨p, .literal⟩
  | none =>
    if args.isEmpty then resolveFolded q.body
    else
      match (q.bind args).namedProvider? with
      | some p => .ok ⟨p, .substitution⟩
      | none => resolveFolded (q.bind args)

end Query

end QueryTree
