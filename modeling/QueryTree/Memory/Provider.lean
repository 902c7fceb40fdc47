import QueryTree.Memory.Interpreter
import QueryTree.Pass.Lowering
import QueryTree.Provider.Callable
import QueryTree.Provider.Resolve

/-!
# The in-memory backend

Tables are row sets by name. Compiling checks that the tables which the query names exist and
lowers its body as for every other backend; each invocation puts the arguments in, folds what
became closed, and runs the tree.
-/

namespace QueryTree.Memory

/-- The tables that literals of the tree name, from the root down. -/
def literalTables (e : Expr) : List String :=
  e.nodes.filterMap fun
    | .const (.source s) _ => some s.table
    | _ => none

/-- The first table of the tree that does not exist. -/
def missingTable? (tables : Tables) (e : Expr) : Option String :=
  (literalTables e).find? fun t => (tables.find? t).isNone

/-- Invoke a lowered query. -/
def invoke (tables : Tables) (q : Query) (args : List Value) : Except Fault Value :=
  (q.bind args).fold.run tables

/-- The backend over these tables. A compilation counts once it has succeeded. -/
def backend (key : String) (tables : Tables) : Backend := fun q => do
  match missingTable? tables q.body with
  | some table => throw (.other s!"unknown table '{table}'")
  | none =>
    match lowerBody q.body with
    | .error e => throw (.query e)
    | .ok lowered =>
      Action.recordCompilation key
      return .ofArity q.arity fun args => liftExcept (invoke tables ⟨q.params, lowered⟩ args)

end QueryTree.Memory
