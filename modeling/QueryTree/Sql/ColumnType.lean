import QueryTree.LogicalType

/-!
# Column types

The generic column types that backends share, with their size facets, and the mapping from logical
types to them. A type system is such a mapping; a logical type that cannot be a column has no image.
-/

namespace QueryTree

/-- The types that columns can be declared with. -/
inductive SqlType where
  | bigInt | binary | bit | char | date | dateTime | dateTime2 | dateTimeOffset | decimal | float
  | image | int | money | nChar | nText | nVarChar | real | smallDateTime | smallInt | smallMoney
  | text | time | timestamp | tinyInt | uniqueIdentifier | varBinary | varChar | variant | xml
deriving DecidableEq, Repr, Inhabited

namespace SqlType

/-- All of them. -/
def all : List SqlType :=
  [bigInt, binary, bit, char, date, dateTime, dateTime2, dateTimeOffset, decimal, float, image, int,
    money, nChar, nText, nVarChar, real, smallDateTime, smallInt, smallMoney, text, time, timestamp,
    tinyInt, uniqueIdentifier, varBinary, varChar, variant, xml]

/-- The name of the type in a declaration. -/
def name : SqlType → String
  | bigInt => "BIGINT"
  | binary => "BINARY"
  | bit => "BIT"
  | char => "CHAR"
  | date => "DATE"
  | dateTime => "DATETIME"
  | dateTime2 => "DATETIME2"
  | dateTimeOffset => "DATETIMEOFFSET"
  | decimal => "DECIMAL"
  | float => "FLOAT"
  | image => "IMAGE"
  | int => "INT"
  | money => "MONEY"
  | nChar => "NCHAR"
  | nText => "NTEXT"
  | nVarChar => "NVARCHAR"
  | real => "REAL"
  | smallDateTime => "SMALLDATETIME"
  | smallInt => "SMALLINT"
  | smallMoney => "SMALLMONEY"
  | text => "TEXT"
  | time => "TIME"
  | timestamp => "TIMESTAMP"
  | tinyInt => "TINYINT"
  | uniqueIdentifier => "UNIQUEIDENTIFIER"
  | varBinary => "VARBINARY"
  | varChar => "VARCHAR"
  | variant => "SQL_VARIANT"
  | xml => "XML"

/-- A declaration of the type carries a length. -/
def hasLength : SqlType → Bool
  | binary | char | nChar | nVarChar | varBinary | varChar => true
  | _ => false

/-- A declaration of the type carries precision and scale. -/
def hasPrecision : SqlType → Bool
  | decimal => true
  | _ => false

end SqlType

/-- A column type with its size facets. -/
structure ColumnType where
  base : SqlType
  length : Option Nat := none
  precision : Option Nat := none
  scale : Option Nat := none
deriving DecidableEq, Repr

/-- The facets of a declaration; those that the type does not carry are left out. -/
def ColumnType.facets (t : ColumnType) : String :=
  if t.base.hasLength then t.length.elim "" fun n => s!"({n})"
  else if t.base.hasPrecision then
    match t.precision, t.scale with
    | some p, some s => s!"({p}, {s})"
    | some p, none => s!"({p})"
    | none, _ => ""
  else ""

/-- The declaration of a column. -/
def ColumnType.declaration (t : ColumnType) : String := t.base.name ++ t.facets

/-- The column types of logical types. -/
abbrev TypeSystem := LogicalType → Option ColumnType

namespace TypeSystem

/-- The type system of every dialect. Text without a length of its own has 4000 characters. -/
def standard : TypeSystem
  | .bool => some { base := .bit }
  | .int16 => some { base := .smallInt }
  | .int32 => some { base := .int }
  | .int64 => some { base := .bigInt }
  | .float32 => some { base := .real }
  | .float64 => some { base := .float }
  | .string => some { base := .nVarChar, length := some 4000 }
  | .bytes => some { base := .varBinary }
  | .date => some { base := .date }
  | .time => some { base := .time }
  | .dateTime => some { base := .dateTime }
  | .record _ | .row _ | .sequence _ | .queryable _ | .provider => none

/-- The type system with another image for one logical type. -/
def override (system : TypeSystem) (t : LogicalType) (image : Option ColumnType) : TypeSystem :=
  fun other => if other = t then image else system other

end TypeSystem

end QueryTree
