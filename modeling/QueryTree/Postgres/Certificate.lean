import QueryTree.Text.CharClass

/-!
# Certificate bundles

A bundle is text in which certificates stand between a begin line and an end line. Anything around
them is passed over, and a begin line starts afresh.
-/

namespace QueryTree.Certificate

/-- The line before a certificate. -/
def beginMark : String := "-----BEGIN CERTIFICATE-----"

/-- The line after it. -/
def endMark : String := "-----END CERTIFICATE-----"

/-- A line without the carriage return that ends it, given last character first. -/
def endLine : List Char → List Char
  | '\r' :: line => line.reverse
  | line => line.reverse

/-- The lines of a text, after the characters of the current line (last one first). -/
def linesFrom (line : List Char) : List Char → List (List Char)
  | [] => if line.isEmpty then [] else [line.reverse]
  | '\n' :: rest => endLine line :: linesFrom [] rest
  | c :: rest => linesFrom (c :: line) rest

/-- Split at line feeds; a carriage return before one belongs to the line break. Text after the last
line feed is a line if there is any. -/
def lines (cs : List Char) : List (List Char) := linesFrom [] cs

/-- Text without the blanks at its ends. -/
def trim (cs : List Char) : List Char :=
  ((cs.dropWhile CharClass.isBlank).reverse.dropWhile CharClass.isBlank).reverse

/-- The mark stands somewhere in the line. -/
def contains (mark : List Char) : List Char → Bool
  | [] => mark.isEmpty
  | c :: rest => mark.isPrefixOf (c :: rest) || contains mark rest

/-- The blocks found so far, and the one that is open. -/
structure Scan where
  blocks : List String := []
  current : Option String := none

/-- Take in one line. -/
def Scan.line (scan : Scan) (raw : List Char) : Scan :=
  let line := trim raw
  if contains beginMark.toList line then { scan with current := some (beginMark ++ "\n") }
  else if contains endMark.toList line then
    match scan.current with
    | some block => ⟨scan.blocks ++ [block ++ endMark ++ "\n"], none⟩
    | none => scan
  else { scan with current := scan.current.map (· ++ String.ofList line ++ "\n") }

/-- The certificate blocks of a bundle in order. -/
def blocks (bundle : String) : List String :=
  ((lines bundle.toList).foldl Scan.line {}).blocks

end QueryTree.Certificate
