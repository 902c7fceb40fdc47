import QueryTree.Calendar
import QueryTree.LogicalType
import QueryTree.Number.Binary64

/-!
# Values

The values that constants carry, that callers pass as arguments and that backends return. Beside
the scalars there are records, lists and row sets, tables to be queried, and execution backends.

Equality (`==`) follows the numbers as they compare: the two zeros are equal and a NaN differs from
itself. A backend is equal only to itself, which its key decides. `sqlCompare?` is the comparison of
SQL, with no answer for NULL or for values of different kinds; `sortCompare` extends it for sorting,
with NULL first and incomparable values level.
-/

namespace QueryTree

/-- An execution backend as values hold it. The key tells backends apart; the name is for display,
and two backends may share one. -/
structure ProviderId where
  key : String
  name : String
deriving DecidableEq, Repr

/-- A table, bound to the backend that owns it or free. -/
structure Source where
  table : String
  provider : Option ProviderId
deriving DecidableEq, Repr

/-- Column names and positional rows with cells of type `α`. -/
structure RowSetOf (α : Type) where
  columns : List String
  rows : List (List α)
deriving Inhabited

/-- A value at run time. -/
inductive Value where
  | null
  | bool (b : Bool)
  | int (n : Int64)
  | float (x : Float)
  | text (s : String)
  | bytes (data : List UInt8)
  | date (d : Date)
  | time (t : Time)
  | dateTime (dt : DateTime)
  /-- A host object: its members, ordered by name, one for each name. -/
  | record (fields : List (String × Value))
  | list (items : List Value)
  /-- The result of a query. -/
  | rows (set : RowSetOf Value)
  | source (s : Source)
  | provider (p : ProviderId)
deriving Inhabited

/-- The cells of a row. -/
abbrev Row := List Value

/-- A set of rows of values. -/
abbrev RowSet := RowSetOf Value

/-! ## Row sets -/

namespace RowSetOf

variable {α : Type}

/-- No columns and no rows. -/
def empty : RowSetOf α := ⟨[], []⟩

/-- The number of rows. -/
def size (set : RowSetOf α) : Nat := set.rows.length

/-- There are no rows. -/
def isEmpty (set : RowSetOf α) : Bool := set.rows.isEmpty

/-- The position of the first column of a name. -/
def columnIndex? (set : RowSetOf α) (name : String) : Option Nat := set.columns.idxOf? name

/-- The cells of a column in row order; a column that is not there has none. -/
def columnValues (set : RowSetOf α) (name : String) : List α :=
  match set.columnIndex? name with
  | some i => set.rows.filterMap (·[i]?)
  | none => []

/-- Every row has one cell for each column. -/
def Rectangular (set : RowSetOf α) : Prop := ∀ row ∈ set.rows, row.length = set.columns.length

end RowSetOf

namespace Value

/-! ## Records -/

/-- Put a member into an ordered list of members, in place of one of the same name. -/
def insertField {α : Type} (name : String) (v : α) : List (String × α) → List (String × α)
  | [] => [(name, v)]
  | (other, w) :: rest =>
    if name < other then (name, v) :: (other, w) :: rest
    else if name = other then (name, v) :: rest
    else (other, w) :: insertField name v rest

/-- Members in the order of their names; of two with one name the later stays. -/
def orderFields {α : Type} (fields : List (String × α)) : List (String × α) :=
  fields.foldl (fun acc (name, v) => insertField name v acc) []

/-- The record with the given members. -/
def ofFields (fields : List (String × Value)) : Value := .record (orderFields fields)

/-- The member of a name. -/
def field? (fields : List (String × Value)) (name : String) : Option Value := fields.lookup name

/-! ## Views -/

/-- The value is NULL. -/
def isNull : Value → Bool
  | .null => true
  | _ => false

/-- The truth value, if it is one. -/
def asBool? : Value → Option Bool
  | .bool b => some b
  | _ => none

/-- The integer, if it is one. -/
def asInt? : Value → Option Int64
  | .int n => some n
  | _ => none

/-- A number as a double; an integer is rounded to the nearest. -/
def asFloat? : Value → Option Float
  | .int n => some (Float.ofInt n.toInt)
  | .float x => some x
  | _ => none

/-- The text, if it is one. -/
def asText? : Value → Option String
  | .text s => some s
  | _ => none

/-- The backend that a value denotes, directly or through a bound table. -/
def boundProvider? : Value → Option ProviderId
  | .provider p => some p
  | .source s => s.provider
  | _ => none

/-- The logical type that the value itself shows. -/
def logicalType? : Value → Option LogicalType
  | .null | .list _ | .rows _ => none
  | .bool _ => some .bool
  | .int _ => some .int64
  | .float _ => some .float64
  | .text _ => some .string
  | .bytes _ => some .bytes
  | .date _ => some .date
  | .time _ => some .time
  | .dateTime _ => some .dateTime
  | .record _ => some (.record "")
  | .source s => some (.queryableOf s.table)
  | .provider _ => some .provider

/-! ## Equality -/

mutual

/-- Structural equality, with doubles compared as numbers. -/
def beq : Value → Value → Bool
  | .null, .null => true
  | .bool a, .bool b => a == b
  | .int a, .int b => a == b
  | .float a, .float b => a == b
  | .text a, .text b => a == b
  | .bytes a, .bytes b => a == b
  | .date a, .date b => a == b
  | .time a, .time b => a == b
  | .dateTime a, .dateTime b => a == b
  | .record a, .record b => beqFields a b
  | .list a, .list b => beqList a b
  | .rows ⟨columns, cells⟩, .rows ⟨columns', cells'⟩ => columns == columns' && beqRows cells cells'
  | .source a, .source b => a == b
  | .provider a, .provider b => a == b
  | _, _ => false
termination_by structural a => a

/-- Equality of fields, names included. -/
def beqFields : List (String × Value) → List (String × Value) → Bool
  | [], [] => true
  | (name, a) :: as, (name', b) :: bs => name == name' && beq a b && beqFields as bs
  | _, _ => false
termination_by structural as => as

/-- Equality of lists. -/
def beqList : List Value → List Value → Bool
  | [], [] => true
  | a :: as, b :: bs => beq a b && beqList as bs
  | _, _ => false
termination_by structural as => as

/-- Equality of rows. -/
def beqRows : List (List Value) → List (List Value) → Bool
  | [], [] => true
  | a :: as, b :: bs => beqList a b && beqRows as bs
  | _, _ => false
termination_by structural as => as

end

instance : BEq Value := ⟨beq⟩

/-! ## Order -/

/-- Lexicographic order of byte strings. -/
def compareBytes : List UInt8 → List UInt8 → Ordering
  | [], [] => .eq
  | [], _ :: _ => .lt
  | _ :: _, [] => .gt
  | a :: as, b :: bs => (compare a b).then (compareBytes as bs)

/-- The comparison of SQL. There is no answer when a side is NULL or the kinds differ; integers and
floats are compared as doubles. -/
def sqlCompare? : Value → Value → Option Ordering
  | .bool a, .bool b => some (compare a b)
  | .int a, .int b => some (compare a b)
  | .int a, .float b => Binary64.compare? (Float.ofInt a.toInt) b
  | .float a, .int b => Binary64.compare? a (Float.ofInt b.toInt)
  | .float a, .float b => Binary64.compare? a b
  | .text a, .text b => some (compare a b)
  | .bytes a, .bytes b => some (compareBytes a b)
  | .date a, .date b => some (compare a b)
  | .time a, .time b => some (compare a b)
  | .dateTime a, .dateTime b => some (compare a b)
  | _, _ => none

/-- The comparison used for sorting: NULL comes first and incomparable values are level. -/
def sortCompare : Value → Value → Ordering
  | .null, .null => .eq
  | .null, _ => .lt
  | _, .null => .gt
  | a, b => (sqlCompare? a b).getD .eq

end Value

end QueryTree
