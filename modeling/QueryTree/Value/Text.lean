import QueryTree.Number.Decimal
import QueryTree.Text.Quoted
import QueryTree.Value.Basic

/-!
# Values as text

`Value.display` is the text for a reader, which concatenation and error messages use.
`Value.inspect` is the structural form: it names the kind of every value and quotes text.
-/

namespace QueryTree

/-- Items between a comma and a space. -/
def commaSeparated (items : List String) : String := ", ".intercalate items

/-- Items in braces. -/
def braced (content : String) : String := "\x7b" ++ content ++ "\x7d"

/-- Items in brackets. -/
def bracketed (items : List String) : String := "[" ++ commaSeparated items ++ "]"

/-- A name and its fields between braces with inner spaces. -/
def fieldList (name : String) (fields : List (String × String)) : String :=
  name ++ " " ++ braced (" " ++ commaSeparated (fields.map fun (k, v) => k ++ ": " ++ v) ++ " ")

/-- An optional part of a structural form. -/
def optional : Option String → String
  | some s => "Some(" ++ s ++ ")"
  | none => "None"

namespace Value

mutual

/-- The text of a value for a reader. -/
def display : Value → String
  | .null => "NULL"
  | .bool b => if b then "true" else "false"
  | .int n => toString n.toInt
  | .float x => FloatStyle.plain.text x
  | .text s => s
  | .bytes data => "[" ++ toString data.length ++ " bytes]"
  | .date d => d.text
  | .time t => t.text
  | .dateTime dt => dt.text " "
  | .record fields => braced (commaSeparated (displayFields fields))
  | .list items => bracketed (displayList items)
  | .rows ⟨_, cells⟩ => "[" ++ toString cells.length ++ " rows]"
  | .source s => "<source " ++ s.table ++ ">"
  | .provider p => "<provider " ++ p.name ++ ">"

/-- The fields of a record, displayed. -/
def displayFields : List (String × Value) → List String
  | [] => []
  | (name, v) :: rest => (name ++ ": " ++ display v) :: displayFields rest

/-- The items of a list, displayed. -/
def displayList : List Value → List String
  | [] => []
  | v :: rest => display v :: displayList rest

end

/-- The structural form of a table. -/
def inspectSource (s : Source) : String :=
  fieldList "QuerySource"
    [("table", Quoted.text s.table),
      ("provider", optional (s.provider.map fun p => Quoted.text p.name))]

mutual

/-- The structural form of a value. -/
def inspect : Value → String
  | .null => "Null"
  | .bool b => "Bool(" ++ (if b then "true" else "false") ++ ")"
  | .int n => "Int(" ++ toString n.toInt ++ ")"
  | .float x => "Float(" ++ FloatStyle.statement.text x ++ ")"
  | .text s => "Text(" ++ Quoted.text s ++ ")"
  | .bytes data => "Bytes(" ++ bracketed (data.map fun b => toString b.toNat) ++ ")"
  | .date d => "Date(" ++ d.text ++ ")"
  | .time t => "Time(" ++ t.text ++ ")"
  | .dateTime dt => "DateTime(" ++ dt.text "T" ++ ")"
  | .record fields => "Record(" ++ braced (commaSeparated (inspectFields fields)) ++ ")"
  | .list items => "List(" ++ bracketed (inspectList items) ++ ")"
  | .rows ⟨columns, cells⟩ =>
    "Rows(" ++ fieldList "RowSet"
      [("columns", bracketed (columns.map Quoted.text)),
        ("rows", bracketed (inspectRows cells))] ++ ")"
  | .source s => "Source(" ++ inspectSource s ++ ")"
  | .provider p => "Provider(" ++ p.name ++ ")"

/-- The fields of a record, in their structural form. -/
def inspectFields : List (String × Value) → List String
  | [] => []
  | (name, v) :: rest => (Quoted.text name ++ ": " ++ inspect v) :: inspectFields rest

/-- The items of a list, in their structural form. -/
def inspectList : List Value → List String
  | [] => []
  | v :: rest => inspect v :: inspectList rest

/-- The rows of a set, in their structural form. -/
def inspectRows : List (List Value) → List String
  | [] => []
  | row :: rest => bracketed (inspectList row) :: inspectRows rest

end

end Value

end QueryTree
