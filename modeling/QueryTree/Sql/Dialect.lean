import QueryTree.Expr.Basic
import QueryTree.Text.LetterCase

/-!
# Dialects

What one SQL backend does its own way: how it quotes identifiers and marks parameters, whether it
takes several statements at once and DISTINCT inside an aggregate, and what its functions for the
last generated key and the number of affected rows are called.
-/

namespace QueryTree

/-- How identifiers are quoted. -/
inductive QuoteStyle where
  /-- Identifiers are written as they are. -/
  | none
  | double
  | backtick
  | bracket
deriving DecidableEq, Repr, Inhabited

namespace QuoteStyle

/-- The opening and the closing delimiter. -/
def delimiters? : QuoteStyle → Option (Char × Char)
  | .none => Option.none
  | .double => some ('"', '"')
  | .backtick => some ('\x60', '\x60')
  | .bracket => some ('[', ']')

/-- Write a closing delimiter twice wherever it stands inside. -/
def doubled (close : Char) (s : List Char) : List Char :=
  s.flatMap fun c => if c = close then [c, c] else [c]

/-- An identifier between delimiters; a closing delimiter inside is written twice. -/
def quote (style : QuoteStyle) (identifier : String) : String :=
  match style.delimiters? with
  | Option.none => identifier
  | some (opening, close) =>
    String.ofList (opening :: doubled close identifier.toList ++ [close])

end QuoteStyle

/-- How parameters are marked. -/
inductive PlaceholderStyle where
  /-- A dollar sign and the position, from 1. -/
  | dollar
  /-- A question mark, whatever the position. -/
  | question
  /-- An at sign and the name. -/
  | named
deriving DecidableEq, Repr, Inhabited

/-- The placeholder of a parameter. -/
def PlaceholderStyle.text (style : PlaceholderStyle) (position : Nat) (name : String) : String :=
  match style with
  | dollar => "$" ++ toString position
  | question => "?"
  | named => "@" ++ name

/-- What differs from one SQL to another. -/
structure Dialect where
  name : String := "generic"
  multipleStatements : Bool := false
  distinctInAggregates : Bool := false
  quoteStyle : QuoteStyle := .none
  placeholderStyle : PlaceholderStyle := .dollar
  generatedIdFunction : String := "LAST_INSERT_ID"
  rowsAffectedFunction : String := "ROW_COUNT"
  /-- The name of the function for affected rows is recognized in one spelling only. -/
  exactFunctionNames : Bool := false
deriving DecidableEq, Repr

namespace Dialect

/-- PostgreSQL: one statement at a time, DISTINCT allowed in aggregates, identifiers as they are,
and numbered placeholders. -/
def postgres : Dialect where
  name := "postgres"
  distinctInAggregates := true
  generatedIdFunction := "LASTVAL"
  exactFunctionNames := true

/-- An identifier as the dialect writes it. -/
def quote (d : Dialect) (identifier : String) : String := d.quoteStyle.quote identifier

/-- The text that stands for the parameter at a position, from 1. -/
def placeholder (d : Dialect) (position : Nat) (name : String) : String :=
  d.placeholderStyle.text position name

/-- The expression for the value that the backend has just generated for a field. -/
def generatedId (d : Dialect) (fieldType : LogicalType) : Expr :=
  .call d.generatedIdFunction [] fieldType

/-- The expression for the number of rows that the last statement affected. -/
def rowsAffected (d : Dialect) : Expr := .call d.rowsAffectedFunction [] .int32

/-- The expression asks for the number of affected rows. -/
def isRowsAffected (d : Dialect) : Expr → Bool
  | .call name [] _ =>
    if d.exactFunctionNames then name == d.rowsAffectedFunction
    else LetterCase.sameIgnoringCase name d.rowsAffectedFunction
  | _ => false

end Dialect

end QueryTree
