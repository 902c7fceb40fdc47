import QueryTree.Error
import QueryTree.Number.Checked
import QueryTree.Text.LetterCase
import QueryTree.Value.Text

/-!
# Built-in functions

The functions that can be computed without a backend. Their names are read without regard to the
case of ASCII letters; any other function belongs to the backend.
-/

namespace QueryTree

/-- The functions that can be evaluated. -/
inductive Builtin where
  | lower | upper | length | abs | coalesce | concat
deriving DecidableEq, Repr

namespace Builtin

/-- The name of a function in SQL. -/
def name : Builtin → String
  | lower => "LOWER"
  | upper => "UPPER"
  | length => "LENGTH"
  | abs => "ABS"
  | coalesce => "COALESCE"
  | concat => "CONCAT"

/-- The names that belong to no backend. -/
def names : List String := ["LOWER", "UPPER", "LENGTH", "ABS", "COALESCE", "CONCAT"]

/-- The name is one of these, in any case. -/
def isName (name : String) : Bool := names.any fun n => LetterCase.sameIgnoringCase n name

/-- The built-in function of a name, found by its capitals. -/
def ofName? (name : String) : Option Builtin :=
  match LetterCase.asciiUpper name with
  | "COALESCE" => some coalesce
  | "CONCAT" => some concat
  | "LOWER" => some lower
  | "UPPER" => some upper
  | "LENGTH" => some length
  | "ABS" => some abs
  | _ => none

/-- Functions of text: NULL stays NULL and anything but text is refused. -/
def onText (b : Builtin) (f : String → Value) : Value → Except EvalError Value
  | .null => .ok .null
  | .text s => .ok (f s)
  | other => .error (.typeMismatch b.name other.display)

/-- The absolute value of a number. -/
def absolute : Value → Except EvalError Value
  | .null => .ok .null
  | .int n => (Checked.abs? n).elim (.error (.overflow abs.name)) fun m => .ok (.int m)
  | .float x => .ok (.float x.abs)
  | other => .error (.typeMismatch abs.name other.display)

/-- Functions of one argument. -/
def unary (b : Builtin) (f : Value → Except EvalError Value) : List Value → Except EvalError Value
  | [v] => f v
  | args => .error (.typeMismatch b.name s!"expected 1 argument(s), got {args.length}")

/-- The value of a built-in function. The length of text counts its characters; `COALESCE` gives the
first argument that is not NULL, and `CONCAT` passes over those that are. -/
def apply (b : Builtin) (args : List Value) : Except EvalError Value :=
  match b with
  | lower => b.unary (b.onText fun s => .text (LetterCase.lower s)) args
  | upper => b.unary (b.onText fun s => .text (LetterCase.upper s)) args
  | length => b.unary (b.onText fun s => .int (Int64.ofNat s.length)) args
  | abs => b.unary absolute args
  | coalesce => .ok ((args.find? fun v => !v.isNull).getD .null)
  | concat => .ok (.text (String.join ((args.filter fun v => !v.isNull).map Value.display)))

end Builtin

end QueryTree
