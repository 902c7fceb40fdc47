import QueryTree.Sql.Dialect
import QueryTree.Value.Basic

/-!
# Commands

A command is SQL text with the values that travel beside it. A named parameter has one entry however
often it is used; a constant has an entry of its own at every occurrence.

Before its parameters are numbered a statement is a list of tokens: pieces of text, and slots for
those values. `Command.ofTokens` numbers the slots from left to right.
-/

namespace QueryTree

/-- A value that does not stand in the text. -/
inductive Slot where
  /-- A formal parameter of the query. -/
  | named (name : String) (type : LogicalType)
  /-- A constant of the tree. -/
  | constant (value : Value) (type : LogicalType)

/-- A piece of text, or a place for a value. -/
inductive Token where
  | text (s : String)
  | slot (s : Slot)

/-- SQL before its parameters are numbered. -/
abbrev Sql := List Token

namespace Sql

/-- A piece of text. -/
def word (s : String) : Sql := [.text s]

/-- Parts with a separator between them. -/
def separated (separator : String) : List Sql → Sql
  | [] => []
  | [part] => part
  | part :: rest => part ++ word separator ++ separated separator rest

/-- A text in parentheses. -/
def parenthesized (s : Sql) : Sql := word "(" ++ s ++ word ")"

end Sql

/-- An entry of the parameter list. A formal parameter has no value of its own; it is bound when the
query is invoked. -/
structure CommandParameter where
  name : String
  type : LogicalType
  value : Option Value

/-- SQL text and its parameters in order. -/
structure Command where
  sql : String
  parameters : List CommandParameter

namespace Command

/-- A command with no text and no parameters. -/
def empty : Command := ⟨"", []⟩

/-- The name of the next constant: constants are counted apart from named parameters. -/
def constantName (parameters : List CommandParameter) : String :=
  "_c" ++ toString (parameters.countP (·.value.isSome))

/-- The position of a formal parameter that already has an entry. -/
def position? (parameters : List CommandParameter) (name : String) : Option Nat :=
  parameters.findIdx? fun p => p.name == name && p.value.isNone

/-- Write one token at the end of a command. -/
def push (d : Dialect) (c : Command) : Token → Command
  | .text s => { c with sql := c.sql ++ s }
  | .slot (.constant value type) =>
    let name := constantName c.parameters
    { sql := c.sql ++ d.placeholder (c.parameters.length + 1) name
      parameters := c.parameters ++ [⟨name, type, some value⟩] }
  | .slot (.named name type) =>
    match position? c.parameters name with
    | some i => { c with sql := c.sql ++ d.placeholder (i + 1) name }
    | none =>
      { sql := c.sql ++ d.placeholder (c.parameters.length + 1) name
        parameters := c.parameters ++ [⟨name, type, none⟩] }

/-- Number the slots from left to right. -/
def ofTokens (d : Dialect) (tokens : Sql) : Command := tokens.foldl (push d) empty

end Command

end QueryTree
