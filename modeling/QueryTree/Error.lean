import QueryTree.Expr.Basic

/-!
# Failures

Each failure is a cause; its wording is given by one function per type. Evaluating a scalar can
fail with an `EvalError`, working on a query with a `QueryError`. What a backend reports is a
`Fault`: one of those two, or a text of its own. A `QueryError` that passes on a backend's fault
adds nothing to its wording.
-/

namespace QueryTree

/-- Why a scalar has no value. -/
inductive EvalError where
  | unboundParameter (name : String)
  | unknownColumn (qualifier name : String)
  | missingMember (name : String)
  | unknownFunction (name : String)
  | typeMismatch (operation detail : String)
  | divisionByZero
  | overflow (operation : String)
  | notScalar (kind : NodeKind)
deriving DecidableEq, Repr

/-- The text of an error of a scalar. -/
def EvalError.message : EvalError → String
  | unboundParameter name => s!"unbound parameter '{name}'"
  | unknownColumn qualifier name => s!"unknown column {qualifier}.{name}"
  | missingMember name => s!"record has no member '{name}'"
  | unknownFunction name => s!"unknown function '{name}'"
  | typeMismatch operation detail => s!"type mismatch in {operation}: {detail}"
  | divisionByZero => "division by zero"
  | overflow operation => s!"integer overflow in {operation}"
  | notScalar kind => s!"{kind.text} is not a scalar expression"

mutual

/-- Why a query has no result. -/
inductive QueryError where
  /-- A node that the pass or the renderer cannot take. -/
  | unsupported (kind : NodeKind) (detail : String)
  /-- No backend could be found for a query. -/
  | unresolved (detail : String)
  /-- The backend failed to compile the query. -/
  | backend (cause : Fault)
  /-- The compiled query failed. -/
  | dispatch (cause : Fault)
  | arity (expected actual : Nat)
  | configuration (detail : String)

/-- What a backend reports. -/
inductive Fault where
  | query (e : QueryError)
  | eval (e : EvalError)
  | other (text : String)

end

mutual

/-- The text of an error of a query. -/
def QueryError.message : QueryError → String
  | .unsupported kind detail => s!"unsupported construct {kind.text}: {detail}"
  | .unresolved detail => s!"could not resolve a query provider: {detail}"
  | .backend cause => cause.message
  | .dispatch cause => cause.message
  | .arity expected actual => s!"query expects {expected} argument(s), got {actual}"
  | .configuration detail => s!"configuration error: {detail}"

/-- The text of a fault. -/
def Fault.message : Fault → String
  | .query e => e.message
  | .eval e => e.message
  | .other text => text

end

end QueryTree
