import QueryTree.Error
import QueryTree.Sql.ColumnType

/-!
# PostgreSQL types

The types of PostgreSQL that parameters and cells have, the image of each generic column type among
them, and the table of parameter types that a type system gives rise to.
-/

namespace QueryTree

/-- The types of PostgreSQL. -/
inductive PgType where
  | bool | int2 | int4 | int8 | float4 | float8 | bytea | text | varchar | bpchar | name | unknown
  | date | time | timestamp | timestamptz | numeric | money | uuid | json | jsonb
  /-- A type that is neither bound nor decoded. -/
  | other (name : String)
deriving DecidableEq, Repr

namespace PgType

/-- PostgreSQL's own name of the type. -/
def typeName : PgType → String
  | bool => "bool"
  | int2 => "int2"
  | int4 => "int4"
  | int8 => "int8"
  | float4 => "float4"
  | float8 => "float8"
  | bytea => "bytea"
  | text => "text"
  | varchar => "varchar"
  | bpchar => "bpchar"
  | name => "name"
  | unknown => "unknown"
  | date => "date"
  | time => "time"
  | timestamp => "timestamp"
  | timestamptz => "timestamptz"
  | numeric => "numeric"
  | money => "money"
  | uuid => "uuid"
  | json => "json"
  | jsonb => "jsonb"
  | other n => n

/-- The types with a constructor of their own. -/
def known : List PgType :=
  [bool, int2, int4, int8, float4, float8, bytea, text, varchar, bpchar, name, unknown, date, time,
    timestamp, timestamptz, numeric, money, uuid, json, jsonb]

/-- The type of a name. -/
def ofName (n : String) : PgType := (known.find? (·.typeName == n)).getD (other n)

/-- The parameter type for a generic column type. Two of them have none. -/
def ofSqlType (t : SqlType) : Except QueryError PgType :=
  match t with
  | .bigInt => .ok int8
  | .binary | .image | .varBinary => .ok bytea
  | .bit => .ok bool
  | .char | .nChar => .ok bpchar
  | .date => .ok date
  | .dateTime | .dateTime2 | .smallDateTime | .timestamp => .ok timestamp
  | .dateTimeOffset => .ok timestamptz
  | .decimal => .ok numeric
  | .float => .ok float8
  | .int => .ok int4
  | .money | .smallMoney => .ok money
  | .nText | .text | .xml => .ok text
  | .nVarChar | .varChar => .ok varchar
  | .real => .ok float4
  | .smallInt => .ok int2
  | .time => .ok time
  | .uniqueIdentifier => .ok uuid
  | .tinyInt | .variant =>
    .error (.configuration s!"SQL type {t.name} has no PostgreSQL parameter type")

end PgType

/-- One scalar logical type with its column type and its parameter type. -/
structure TypeEntry where
  logical : LogicalType
  column : ColumnType
  parameter : PgType
deriving DecidableEq, Repr

/-- The column and parameter types of all scalar logical types. -/
structure TypeMap where
  entries : List TypeEntry
deriving DecidableEq, Repr

namespace TypeMap

/-- The images of one logical type, or an error if it has none. -/
def entry (system : TypeSystem) (logical : LogicalType) : Except QueryError TypeEntry := do
  match system logical with
  | none => throw (.configuration s!"no column type for {logical.text}")
  | some column => return ⟨logical, column, ← PgType.ofSqlType column.base⟩

/-- Map every scalar type. It fails at the first one without an image. -/
def ofSystem (system : TypeSystem) : Except QueryError TypeMap :=
  return ⟨← LogicalType.scalars.mapM (entry system)⟩

/-- The images of a logical type. -/
def find? (m : TypeMap) (logical : LogicalType) : Option TypeEntry :=
  m.entries.find? (·.logical == logical)

/-- The type of its columns. -/
def columnType? (m : TypeMap) (logical : LogicalType) : Option ColumnType :=
  (m.find? logical).map (·.column)

/-- The type of its parameters. -/
def parameterType? (m : TypeMap) (logical : LogicalType) : Option PgType :=
  (m.find? logical).map (·.parameter)

/-- The parameter type, or a fault that names the logical type. -/
def requireParameterType (m : TypeMap) (logical : LogicalType) : Except Fault PgType :=
  match m.parameterType? logical with
  | some t => .ok t
  | none => .error (.other s!"{logical.text} cannot be bound as a parameter")

end TypeMap

end QueryTree
