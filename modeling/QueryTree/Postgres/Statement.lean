import QueryTree.Pipeline
import QueryTree.Postgres.Wire
import QueryTree.Provider.Callable

/-!
# Prepared statements

A query is prepared by rendering it and giving every parameter of the command its type and its
origin: an argument of the query by position, or a constant of the tree. Binding then takes the
arguments, the text is encoded for the server, and then all parameters are, in the order of the
statement; so a text that cannot be encoded is reported before a parameter that cannot.
-/

namespace QueryTree

/-- Where a parameter of a statement gets its value. -/
inductive Origin where
  /-- The position among the arguments of the query. -/
  | argument (position : Nat)
  | constant (value : Value)

/-- A parameter of a statement: its type, and where its value comes from. -/
structure StatementParameter where
  type : PgType
  origin : Origin

/-- The text of a statement and its parameters in order. -/
structure Statement where
  sql : String
  parameters : List StatementParameter

namespace Statement

/-- The origin of a command's parameter among the parameters of the query. -/
def originOf (params : List Parameter) (p : CommandParameter) : Except Fault Origin :=
  match p.value with
  | some v => .ok (.constant v)
  | none =>
    match params.findIdx? (·.name == p.name) with
    | some i => .ok (.argument i)
    | none => .error (.other s!"parameter '{p.name}' is not declared")

/-- The type and the origin of a command's parameter. -/
def parameterOf (types : TypeMap) (params : List Parameter) (p : CommandParameter) :
    Except Fault StatementParameter := do
  let type ← types.requireParameterType p.type
  let origin ← originOf params p
  return ⟨type, origin⟩

/-- Render a query and resolve its parameters. -/
def prepare (pipeline : Pipeline) (types : TypeMap) (q : Query) : Except Fault Statement :=
  match pipeline.command (.lambda q.params q.body) with
  | .error e => .error (.query e)
  | .ok command =>
    return ⟨command.sql, ← command.parameters.mapM (parameterOf types q.params)⟩

/-- The value of a parameter, given the arguments. -/
def valueOf (args : List Value) : Origin → Except Fault Value
  | .constant v => .ok v
  | .argument i =>
    match args[i]? with
    | some v => .ok v
    | none => .error (.other s!"missing argument {i}")

/-- Every parameter in the form in which it travels. -/
def bind (s : Statement) (args : List Value) : Except Fault (List (PgType × Bound)) :=
  s.parameters.mapM fun p => do
    let v ← valueOf args p.origin
    return (p.type, ← Bound.ofValue v p.type)

/-- Encode bound parameters, the first of them at a position. The fault names the position of the
first one that cannot be encoded. -/
def encodeFrom (position : Nat) :
    List (PgType × Bound) → Except Fault (List (Option (List UInt8)))
  | [] => .ok []
  | (t, b) :: rest =>
    match b.encode t with
    | .error _ => .error (.other s!"error serializing parameter {position}")
    | .ok cell => return cell :: (← encodeFrom (position + 1) rest)

/-- The text travels with a zero byte as its end, so it may hold none itself. -/
def checkText (sql : String) : Except Fault Unit :=
  if sql.toList.any fun c => c.toNat = 0 then .error (.other "error encoding message to server")
  else .ok ()

/-- The statement as it is sent with these arguments. -/
def send (s : Statement) (args : List Value) : Except Fault SentStatement := do
  let bound ← s.bind args
  checkText s.sql
  let params ← encodeFrom 0 bound
  return ⟨s.sql, s.parameters.map (·.type.typeName), params⟩

end Statement

end QueryTree
