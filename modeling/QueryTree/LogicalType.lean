/-!
# Logical types

Every node of a query tree carries the logical type of the value it produces: a scalar, a record
held by the host program, the row shape of a table or projection, a sequence of rows, a queryable
table, or an execution backend.
-/

namespace QueryTree

/-- The types of values and of relations. -/
inductive LogicalType where
  | bool
  | int16
  | int32
  | int64
  | float32
  | float64
  | string
  | bytes
  | date
  | time
  | dateTime
  /-- A host object with named members. -/
  | record (name : String)
  /-- The row shape of a named table or projection. -/
  | row (name : String)
  /-- The rows a relational node produces. -/
  | sequence (element : LogicalType)
  /-- A table that yields rows of the given shape. -/
  | queryable (element : LogicalType)
  /-- An execution backend. -/
  | provider
deriving DecidableEq, Repr, Inhabited

namespace LogicalType

/-- The types that a backend can bind as parameters. -/
def scalars : List LogicalType :=
  [bool, int16, int32, int64, float32, float64, string, bytes, date, time, dateTime]

/-- A sequence of rows of a named type. -/
def sequenceOf (row : String) : LogicalType := .sequence (.row row)

/-- A queryable over rows of a named type. -/
def queryableOf (row : String) : LogicalType := .queryable (.row row)

/-- The type of a provider. -/
def isProvider : LogicalType → Bool
  | .provider => true
  | _ => false

/-- The type of something that can be queried. -/
def isQueryable : LogicalType → Bool
  | .queryable _ => true
  | _ => false

/-- The type is one of those that can be bound. -/
def isScalar (t : LogicalType) : Bool := scalars.contains t

/-- A type of doubles. -/
def isFloat : LogicalType → Bool
  | .float32 | .float64 => true
  | _ => false

/-- A type of integers or doubles. -/
def isNumeric : LogicalType → Bool
  | .int16 | .int32 | .int64 | .float32 | .float64 => true
  | _ => false

/-- The type of an arithmetic result: the wider integer, or a double as soon as one side is a
float, single precision being kept only between two of its kind. An operand that is no number
leaves the left type. -/
def arithmetic (left right : LogicalType) : LogicalType :=
  if !left.isNumeric || !right.isNumeric then left
  else if left = .float32 ∧ right = .float32 then .float32
  else if left.isFloat || right.isFloat then .float64
  else if left = .int64 ∨ right = .int64 then .int64
  else if left = .int32 ∨ right = .int32 then .int32
  else left

/-- The type in words. -/
def text : LogicalType → String
  | .bool => "bool"
  | .int16 => "int16"
  | .int32 => "int32"
  | .int64 => "int64"
  | .float32 => "float32"
  | .float64 => "float64"
  | .string => "string"
  | .bytes => "bytes"
  | .date => "date"
  | .time => "time"
  | .dateTime => "datetime"
  | .record name => "record<" ++ name ++ ">"
  | .row name => "row<" ++ name ++ ">"
  | .sequence element => "sequence<" ++ element.text ++ ">"
  | .queryable element => "queryable<" ++ element.text ++ ">"
  | .provider => "provider"

end LogicalType

end QueryTree
