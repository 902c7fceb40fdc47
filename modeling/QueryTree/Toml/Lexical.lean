import QueryTree.Calendar
import QueryTree.Number.Checked
import QueryTree.Toml.Basic

/-!
# Words of a configuration document

Strings, numbers, dates and keys, each read from the front of a list of characters. A reader gives
what it read and the characters after it, or nothing if the text does not start that way.
-/

namespace QueryTree.Toml

/-- Read something from the front of a text; the rest is returned with it. -/
abbrev Reader (α : Type) := List Char → Option (α × List Char)

/-! ## Blanks and line ends -/

/-- A blank within a line. -/
def isSpace (c : Char) : Bool := c = ' ' || c = '\t'

/-- Leave out the blanks at the front. -/
def skipSpaces (cs : List Char) : List Char := cs.dropWhile isSpace

/-- Characters that may stand in a comment, or in a string apart from its delimiters. -/
def isContent (c : Char) : Bool := c = '\t' || (0x20 ≤ c.toNat && c.toNat ≠ 0x7F)

/-- One line break. -/
def lineBreak? : List Char → Option (List Char)
  | '\n' :: rest => some rest
  | '\r' :: '\n' :: rest => some rest
  | _ => none

/-- Skip a comment, if there is one. -/
def skipComment : List Char → List Char
  | '#' :: rest => rest.dropWhile isContent
  | cs => cs

/-- The end of a line: blanks, a comment, and a line break or the end of the text. -/
def lineEnd? (cs : List Char) : Option (List Char) :=
  match skipComment (skipSpaces cs) with
  | [] => some []
  | rest => lineBreak? rest

/-- Skip blanks, comments and line breaks, with fuel for every character. -/
def skipLines : Nat → List Char → List Char
  | 0, cs => cs
  | fuel + 1, cs =>
    match skipSpaces cs with
    | '#' :: rest => skipLines fuel (rest.dropWhile isContent)
    | rest =>
      match lineBreak? rest with
      | some rest => skipLines fuel rest
      | none => rest

/-! ## Strings -/

/-- Put a character in front of what was read. -/
def prepend (c : Char) (read : Option (List Char × List Char)) : Option (List Char × List Char) :=
  read.map fun (s, rest) => (c :: s, rest)

/-- The value of a hexadecimal digit. -/
def hexValue? (c : Char) : Option Nat :=
  if c.isDigit then some (c.toNat - 48)
  else if 'a' ≤ c ∧ c ≤ 'f' then some (c.toNat - 87)
  else if 'A' ≤ c ∧ c ≤ 'F' then some (c.toNat - 55)
  else none

/-- The character of a code point in hexadecimal digits. -/
def codePoint? (digits : List Char) : Option Char := do
  let n ← digits.foldlM (fun n c => (hexValue? c).map (n * 16 + ·)) 0
  if n.isValidChar then some (Char.ofNat n) else none

/-- The character that a backslash makes of the next one. -/
def escaped? : Char → Option Char
  | 'b' => some '\x08'
  | 't' => some '\t'
  | 'n' => some '\n'
  | 'f' => some '\x0c'
  | 'r' => some '\r'
  | '"' => some '"'
  | '\\' => some '\\'
  | _ => none

/-- A string up to its double quote. -/
def basicString : Reader (List Char)
  | [] => none
  | '"' :: rest => some ([], rest)
  | '\\' :: 'u' :: a :: b :: c :: d :: rest => do
    prepend (← codePoint? [a, b, c, d]) (basicString rest)
  | '\\' :: 'U' :: a :: b :: c :: d :: e :: f :: g :: h :: rest => do
    prepend (← codePoint? [a, b, c, d, e, f, g, h]) (basicString rest)
  | '\\' :: c :: rest => do prepend (← escaped? c) (basicString rest)
  | c :: rest => if isContent c && c != '\\' then prepend c (basicString rest) else none

/-- A string up to its single quote, without escapes. -/
def literalString : Reader (List Char)
  | [] => none
  | '\'' :: rest => some ([], rest)
  | c :: rest => if isContent c then prepend c (literalString rest) else none

/-- The quotes that still belong to a string of several lines after its end was met: at most two. -/
def extraQuotes (quote : Char) : Reader (List Char)
  | a :: b :: rest =>
    if a = quote then if b = quote then some ([a, b], rest) else some ([a], b :: rest)
    else some ([], a :: b :: rest)
  | [a] => if a = quote then some ([a], []) else some ([], [a])
  | [] => some ([], [])

/-- Only blanks stand before the next line break. -/
def endsLine (cs : List Char) : Bool := (lineBreak? (skipSpaces cs)).isSome

/-- A string of several lines up to its three double quotes. A backslash at the end of a line drops
the line break and all blanks and line breaks after it, which `skipping` stands for. -/
def longBasicString (skipping : Bool) : Reader (List Char)
  | [] => none
  | '"' :: '"' :: '"' :: rest => extraQuotes '"' rest
  | '\r' :: '\n' :: rest =>
    if skipping then longBasicString true rest else prepend '\n' (longBasicString false rest)
  | '\\' :: 'u' :: a :: b :: c :: d :: rest => do
    prepend (← codePoint? [a, b, c, d]) (longBasicString false rest)
  | '\\' :: 'U' :: a :: b :: c :: d :: e :: f :: g :: h :: rest => do
    prepend (← codePoint? [a, b, c, d, e, f, g, h]) (longBasicString false rest)
  | '\\' :: c :: rest =>
    if endsLine (c :: rest) then longBasicString true (c :: rest)
    else do prepend (← escaped? c) (longBasicString false rest)
  | c :: rest =>
    if skipping && (isSpace c || c = '\n') then longBasicString true rest
    else if c = '\n' || (isContent c && c != '\\') then prepend c (longBasicString false rest)
    else none

/-- A string of several lines up to its three single quotes. -/
def longLiteralString : Reader (List Char)
  | [] => none
  | '\'' :: '\'' :: '\'' :: rest => extraQuotes '\'' rest
  | '\r' :: '\n' :: rest => prepend '\n' (longLiteralString rest)
  | c :: rest => if c = '\n' || isContent c then prepend c (longLiteralString rest) else none

/-- A line break right after the opening quotes does not count. -/
def afterOpening (cs : List Char) : List Char := (lineBreak? cs).getD cs

/-- A string of any of the four kinds. -/
def anyString (cs : List Char) : Option (String × List Char) :=
  (match cs with
    | '"' :: '"' :: '"' :: rest => longBasicString false (afterOpening rest)
    | '\'' :: '\'' :: '\'' :: rest => longLiteralString (afterOpening rest)
    | '"' :: rest => basicString rest
    | '\'' :: rest => literalString rest
    | _ => none).map fun (s, rest) => (String.ofList s, rest)

/-! ## Numbers -/

/-- Digits after the first, with single underscores between them left out. -/
def moreDigits (isDigit : Char → Bool) : List Char → List Char × List Char
  | '_' :: c :: rest =>
    if isDigit c then
      let (ds, left) := moreDigits isDigit rest
      (c :: ds, left)
    else ([], '_' :: c :: rest)
  | c :: rest =>
    if isDigit c then
      let (ds, left) := moreDigits isDigit rest
      (c :: ds, left)
    else ([], c :: rest)
  | [] => ([], [])

/-- At least one digit. -/
def digits (isDigit : Char → Bool) : Reader (List Char)
  | c :: rest =>
    if isDigit c then
      let (ds, left) := moreDigits isDigit rest
      some (c :: ds, left)
    else none
  | [] => none

/-- The whole part of a decimal number: a zero, or digits that do not start with one. -/
def wholePart : Reader (List Char)
  | '0' :: rest => some (['0'], rest)
  | cs => digits Char.isDigit cs

/-- A sign; true is a minus. -/
def sign : List Char → Bool × List Char
  | '+' :: rest => (false, rest)
  | '-' :: rest => (true, rest)
  | cs => (false, cs)

/-- The number that digits stand for. -/
def digitsValue (base : Nat) (ds : List Char) : Nat :=
  ds.foldl (fun n c => n * base + (hexValue? c).getD 0) 0

/-- An integer without a sign in another base, after its mark. -/
def basedInteger (base : Nat) (cs : List Char) : Option (Toml × List Char) := do
  let (ds, rest) ← digits (fun c => (hexValue? c).any (· < base)) cs
  return (.integer (← Checked.ofInt? (digitsValue base ds)), rest)

/-- `m · 10^e` is beyond the largest double. -/
def overflows (m : Nat) (e : Int) : Bool :=
  let size : Int := (Nat.toDigits 10 m).length + e
  let bound := (1 <<< 1024) - (1 <<< 970)
  if m = 0 || size ≤ 308 then false
  else if 310 ≤ size then true
  else if 0 ≤ e then bound ≤ m * Nat.pow 10 e.toNat
  else bound * Nat.pow 10 e.natAbs ≤ m

/-- A float, whose sign and significand were read. A positive one must be in range. -/
def finishFloat (negative : Bool) (m : Nat) (e : Int) (rest : List Char) :
    Option (Toml × List Char) :=
  if !negative && overflows m e then none else some (.float, rest)

/-- The exponent of a float. -/
def exponent (cs : List Char) : Option (Int × List Char) := do
  let (negative, cs) := sign cs
  let (ds, rest) ← digits Char.isDigit cs
  let n : Int := digitsValue 10 ds
  return (if negative then -n else n, rest)

/-- What follows the whole part of a decimal number. -/
def afterWhole (negative : Bool) (whole : List Char) : List Char → Option (Toml × List Char)
  | '.' :: rest => do
    let (fraction, rest) ← digits Char.isDigit rest
    let m := digitsValue 10 (whole ++ fraction)
    let shift : Int := fraction.length
    match rest with
    | c :: tail =>
      if c = 'e' ∨ c = 'E' then do
        let (e, rest) ← exponent tail
        finishFloat negative m (e - shift) rest
      else finishFloat negative m (-shift) rest
    | [] => finishFloat negative m (-shift) []
  | c :: rest =>
    if c = 'e' ∨ c = 'E' then do
      let (e, rest) ← exponent rest
      finishFloat negative (digitsValue 10 whole) e rest
    else integerOf (c :: rest)
  | [] => integerOf []
where
  /-- A decimal integer in range. -/
  integerOf (rest : List Char) : Option (Toml × List Char) := do
    let n : Int := digitsValue 10 whole
    return (.integer (← Checked.ofInt? (if negative then -n else n)), rest)

/-- An integer or a float. -/
def number : List Char → Option (Toml × List Char)
  | '0' :: 'x' :: rest => basedInteger 16 rest
  | '0' :: 'o' :: rest => basedInteger 8 rest
  | '0' :: 'b' :: rest => basedInteger 2 rest
  | cs =>
    match sign cs with
    | (_, 'i' :: 'n' :: 'f' :: rest) => some (.float, rest)
    | (_, 'n' :: 'a' :: 'n' :: rest) => some (.float, rest)
    | (negative, cs) => do
      let (whole, rest) ← wholePart cs
      afterWhole negative whole rest

/-! ## Dates and times -/

/-- A number of exactly this many digits, within bounds. -/
def fixedDigits (width low high : Nat) (cs : List Char) : Option (Nat × List Char) :=
  let ds := cs.take width
  let n := digitsValue 10 ds
  if ds.length = width && ds.all Char.isDigit && low ≤ n && n ≤ high then some (n, cs.drop width)
  else none

/-- One given character. -/
def expect (c : Char) : List Char → Option (List Char)
  | d :: rest => if d = c then some rest else none
  | [] => none

/-- The text behind a date. -/
def date (cs : List Char) : Option (List Char) := do
  let (year, cs) ← fixedDigits 4 0 9999 cs
  let cs ← expect '-' cs
  let (month, cs) ← fixedDigits 2 1 12 cs
  let cs ← expect '-' cs
  let (_, cs) ← fixedDigits 2 1 (Calendar.daysIn year month) cs
  return cs

/-- The fraction of a second, if there is one. -/
def fraction : List Char → Option (List Char)
  | '.' :: c :: rest => if c.isDigit then some (rest.dropWhile Char.isDigit) else none
  | ['.'] => none
  | cs => some cs

/-- The text behind a time of the day. -/
def time (cs : List Char) : Option (List Char) := do
  let (_, cs) ← fixedDigits 2 0 23 cs
  let cs ← expect ':' cs
  let (_, cs) ← fixedDigits 2 0 59 cs
  let cs ← expect ':' cs
  let (_, cs) ← fixedDigits 2 0 60 cs
  fraction cs

/-- An offset from universal time, if there is one. -/
def offset : List Char → Option (List Char)
  | c :: rest =>
    if c = 'Z' ∨ c = 'z' then some rest
    else if c = '+' ∨ c = '-' then do
      let (_, cs) ← fixedDigits 2 0 23 rest
      let cs ← expect ':' cs
      let (_, cs) ← fixedDigits 2 0 59 cs
      return cs
    else some (c :: rest)
  | [] => some []

/-- The time of day after a date, if there is one. -/
def timeAfterDate : List Char → Option (List Char)
  | c :: rest =>
    if c = 'T' ∨ c = 't' ∨ c = ' ' then
      match time rest with
      | some rest => offset rest
      | none => some (c :: rest)
    else some (c :: rest)
  | [] => some []

/-- A date, with or without a time, or a time. -/
def dateTime? (cs : List Char) : Option (List Char) :=
  match date cs with
  | some rest => timeAfterDate rest
  | none => time cs

/-! ## Keys -/

/-- A character of a key without quotes. -/
def isBareKeyChar (c : Char) : Bool := c.isAlphanum || c = '_' || c = '-'

/-- One part of a key. -/
def simpleKey (cs : List Char) : Option (String × List Char) :=
  match cs with
  | '"' :: rest => (basicString rest).map fun (s, rest) => (String.ofList s, rest)
  | '\'' :: rest => (literalString rest).map fun (s, rest) => (String.ofList s, rest)
  | cs =>
    let key := cs.takeWhile isBareKeyChar
    if key.isEmpty then none else some (String.ofList key, cs.dropWhile isBareKeyChar)

/-- The deepest nesting of keys and of values. -/
def maxDepth : Nat := 80

/-- The parts of a dotted key, blanks around them allowed, as many as there is fuel for. -/
def keyParts : Nat → List Char → Option (List String × List Char)
  | 0, _ => none
  | fuel + 1, cs => do
    let (part, rest) ← simpleKey (skipSpaces cs)
    match skipSpaces rest with
    | '.' :: rest =>
      let (parts, rest) ← keyParts fuel rest
      return (part :: parts, rest)
    | rest => return ([part], rest)

/-- A dotted key: the parts before the last, and the last. -/
def key (cs : List Char) : Option ((List String × String) × List Char) := do
  let (parts, rest) ← keyParts (maxDepth - 1) cs
  let last ← parts.getLast?
  return ((parts.dropLast, last), rest)

end QueryTree.Toml
