import QueryTree.Postgres.Statement
import QueryTree.Provider.Callable
import QueryTree.Provider.Resolve

/-!
# The PostgreSQL backend

A query that scans only literal tables is prepared when it is compiled. One that scans a table
passed in as an argument is prepared on every call, with those arguments in place.

The server is a function from statements to cells; the one used here answers every statement alike.
-/

namespace QueryTree

/-- What a server answers: columns with their types, and rows of binary cells. -/
structure Reply where
  columns : List (String × PgType)
  rows : List (List (Option (List UInt8)))

/-- The row set of a reply. A reply without rows has no columns either. -/
def Reply.toRowSet (reply : Reply) : RowSet :=
  if reply.rows.isEmpty then .empty
  else
    ⟨reply.columns.map (·.1),
      reply.rows.map fun cells => List.zipWith (fun c cell => c.2.decode cell) reply.columns cells⟩

/-- A backend connected to a server that gives one reply to every statement. -/
structure PostgresBackend where
  key : String
  pipeline : Pipeline
  types : TypeMap
  reply : Reply

namespace PostgresBackend

/-- Connect with a pipeline. It fails if some type cannot be bound. -/
def connect (key : String) (pipeline : Pipeline) (reply : Reply) :
    Except QueryError PostgresBackend :=
  return ⟨key, pipeline, ← TypeMap.ofSystem .standard, reply⟩

/-- The statement that would be sent for a query. -/
def prepare (b : PostgresBackend) (q : Query) : Except Fault Statement :=
  Statement.prepare b.pipeline b.types q

/-- Some scan reads from something else than a literal. -/
def hasDynamicSource (e : Expr) : Bool :=
  e.any fun
    | .scan source _ _ => !source.isConstant
    | _ => false

/-- The query with its table arguments in place and folded; scalar parameters stay. -/
def bindSources (q : Query) (args : List Value) : Query :=
  let tables := (Bindings.ofArguments q.params args).filter (·.param.type.isQueryable)
  ⟨q.params, (q.body.substitute tables).fold⟩

/-- Send a statement with arguments and read the reply. -/
def execute (b : PostgresBackend) (s : Statement) (args : List Value) : Action Value := do
  let sent ← liftExcept (s.send args)
  Action.recordStatement b.key sent
  return .rows b.reply.toRowSet

/-- The backend as it compiles queries. -/
def backend (b : PostgresBackend) : Backend := fun q => do
  if hasDynamicSource q.body then
    return .ofArity q.arity fun args => do
      let s ← liftExcept (b.prepare (bindSources q args))
      b.execute s args
  else
    let s ← liftExcept (b.prepare q)
    return .ofArity q.arity (b.execute s)

end PostgresBackend

end QueryTree
