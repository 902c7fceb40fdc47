import QueryTree.Number.Decimal
import QueryTree.Value.Basic

/-!
# JSON text

A reader and a compact writer for JSON. Objects are ordered by key and the last of two equal keys
counts. An integer stays an integer when it fits 64 bits, signed or unsigned; every other number is
a double, computed from at most twenty significant digits and a power of ten, and one too large for
a double is refused. Nesting is refused beyond 127 levels.
-/

namespace QueryTree

/-- A JSON value. Members keep their order. -/
inductive Json where
  | null
  | bool (b : Bool)
  /-- An integer that fits 64 bits. -/
  | int (n : Int)
  | float (x : Float)
  | string (s : String)
  | array (items : List Json)
  | object (members : List (String × Json))
deriving Inhabited

namespace Json

/-! ## Writing -/

/-- A hexadecimal digit, in lower case. -/
def hexDigit (n : Nat) : Char := (Nat.toDigits 16 n).headD '0'

/-- One character between quotes. Only quotes, backslashes and controls are escaped. -/
def escape (c : Char) : List Char :=
  if c = '"' then ['\\', '"']
  else if c = '\\' then ['\\', '\\']
  else if c = '\n' then ['\\', 'n']
  else if c = '\r' then ['\\', 'r']
  else if c = '\t' then ['\\', 't']
  else if c.toNat = 8 then ['\\', 'b']
  else if c.toNat = 12 then ['\\', 'f']
  else if c.toNat < 32 then ['\\', 'u', '0', '0', hexDigit (c.toNat / 16), hexDigit (c.toNat % 16)]
  else [c]

/-- A text between quotes. -/
def quote (s : String) : String := String.ofList ('"' :: s.toList.flatMap escape ++ ['"'])

mutual

/-- Compact JSON text. -/
def render : Json → String
  | .null => "null"
  | .bool b => if b then "true" else "false"
  | .int n => toString n
  | .float x => FloatStyle.json.text x
  | .string s => quote s
  | .array items => "[" ++ ",".intercalate (renderItems items) ++ "]"
  | .object members => "\x7b" ++ ",".intercalate (renderMembers members) ++ "\x7d"

/-- The items of an array, rendered. -/
def renderItems : List Json → List String
  | [] => []
  | j :: rest => render j :: renderItems rest

/-- The members of an object, rendered. -/
def renderMembers : List (String × Json) → List String
  | [] => []
  | (k, j) :: rest => (quote k ++ ":" ++ render j) :: renderMembers rest

end

/-! ## Numbers -/

/-- The number that decimal digits stand for. -/
def digitsValue (ds : List Char) : Nat := ds.foldl (fun n c => n * 10 + (c.toNat - 48)) 0

/-- The digits that fit an unsigned 64-bit significand, starting from `n`, and those left over. -/
def takeSignificand (n : Nat) : List Char → Nat × List Char
  | [] => (n, [])
  | c :: rest =>
    let next := n * 10 + (c.toNat - 48)
    if next < UInt64.size then takeSignificand next rest else (n, c :: rest)

/-- `10^n` as a double; exact text makes it the nearest one. -/
def powerOfTen (n : Nat) : Float := Float.ofScientific 1 false n

/-- Divide by `10^308` for as long as the remaining exponent calls for it. -/
def scaleDown (f : Float) (exponent : Nat) : Float :=
  if exponent ≤ 308 then f / powerOfTen exponent
  else if f == 0.0 then f
  else scaleDown (f / powerOfTen 308) (exponent - 308)
termination_by exponent

/-- `significand · 10^exponent`, rounded once for the significand and once for each scaling. A
positive exponent beyond the range of doubles is refused, unless the number is zero. -/
def ofParts? (significand : Nat) (exponent : Int) : Option Float :=
  let f := Float.ofNat significand
  if 0 ≤ exponent then
    if exponent ≤ 308 then
      let x := f * powerOfTen exponent.toNat
      if x.isInf then none else some x
    else if significand = 0 then some f
    else none
  else some (scaleDown f exponent.natAbs)

/-- Split off the digits at the front. -/
def spanDigits (cs : List Char) : List Char × List Char := cs.span Char.isDigit

/-- An exponent part begins here. -/
def startsExponent : List Char → Bool
  | c :: _ => c = 'e' || c = 'E'
  | [] => false

/-- The exponent part, if there is one: its sign, its digits and the rest. -/
def exponentPart (cs : List Char) : Option (Option (Bool × Nat) × List Char) :=
  match cs with
  | c :: rest =>
    if c = 'e' ∨ c = 'E' then
      let (negative, rest) := match rest with
        | '+' :: rest => (false, rest)
        | '-' :: rest => (true, rest)
        | rest => (false, rest)
      let (ds, rest) := spanDigits rest
      if ds.isEmpty then none else some (some (negative, digitsValue ds), rest)
    else some (none, cs)
  | [] => some (none, [])

/-- A number that is not an integer in range: `significand · 10^shift` before its exponent part. An
exponent beyond 32 bits makes the number zero or refused, by its sign. -/
def finishFloat (negative : Bool) (significand : Nat) (shift : Int) (cs : List Char) :
    Option (Json × List Char) := do
  let (exponent, rest) ← exponentPart cs
  let signed (x : Float) : Json := .float (if negative then -x else x)
  match exponent with
  | none => return (signed (← ofParts? significand shift), rest)
  | some (down, e) =>
    if 1 <<< 31 ≤ e then
      if significand ≠ 0 && !down then none else return (signed 0.0, rest)
    else return (signed (← ofParts? significand (if down then shift - e else shift + e)), rest)

/-- A number, after its sign. -/
def parseNumber (negative : Bool) (cs : List Char) : Option (Json × List Char) := do
  let (whole, rest) := spanDigits cs
  if whole.isEmpty ∨ (whole.length > 1 ∧ whole.head? = some '0') then none
  let (significand, dropped) := takeSignificand 0 whole
  let shift : Int := dropped.length
  match rest with
  | '.' :: rest =>
    let (fraction, rest) := spanDigits rest
    if fraction.isEmpty then none
    let (significand, ignored) := takeSignificand significand fraction
    finishFloat negative significand (shift - (fraction.length - ignored.length : Nat)) rest
  | rest =>
    if startsExponent rest || !dropped.isEmpty then finishFloat negative significand shift rest
    else if !negative then return (.int significand, rest)
    else if significand = 0 ∨ 1 <<< 63 < significand then
      return (.float (-(Float.ofNat significand)), rest)
    else return (.int (-significand), rest)

/-! ## Strings -/

/-- The value of a hexadecimal digit. -/
def hexValue? (c : Char) : Option Nat :=
  if c.isDigit then some (c.toNat - 48)
  else if 'a' ≤ c ∧ c ≤ 'f' then some (c.toNat - 87)
  else if 'A' ≤ c ∧ c ≤ 'F' then some (c.toNat - 55)
  else none

/-- Four hexadecimal digits. -/
def hex4? : List Char → Option (Nat × List Char)
  | a :: b :: c :: d :: rest => do
    return (((← hexValue? a) * 16 + (← hexValue? b)) * 256 + (← hexValue? c) * 16 + (← hexValue? d),
      rest)
  | _ => none

/-- The character of a Unicode escape. A high surrogate needs a low one directly after it. -/
def unicodeEscape? (cs : List Char) : Option (Char × List Char) := do
  let (n, rest) ← hex4? cs
  if 0xdc00 ≤ n ∧ n ≤ 0xdfff then none
  else if 0xd800 ≤ n ∧ n ≤ 0xdbff then
    match rest with
    | '\\' :: 'u' :: rest =>
      let (low, rest) ← hex4? rest
      if 0xdc00 ≤ low ∧ low ≤ 0xdfff then
        return (Char.ofNat (0x10000 + (n - 0xd800) * 0x400 + (low - 0xdc00)), rest)
      else none
    | _ => none
  else return (Char.ofNat n, rest)

/-- The character of a short escape. -/
def shortEscape? : Char → Option Char
  | '"' => some '"'
  | '\\' => some '\\'
  | '/' => some '/'
  | 'b' => some (Char.ofNat 8)
  | 'f' => some (Char.ofNat 12)
  | 'n' => some '\n'
  | 'r' => some '\r'
  | 't' => some '\t'
  | _ => none

/-- The rest of a string after its opening quote; `fuel` bounds the characters read. -/
def parseString (fuel : Nat) (acc : List Char) (cs : List Char) : Option (String × List Char) :=
  match fuel, cs with
  | fuel + 1, c :: rest =>
    if c = '"' then some (String.ofList acc.reverse, rest)
    else if c = '\\' then
      match rest with
      | 'u' :: rest =>
        match unicodeEscape? rest with
        | some (c, rest) => parseString fuel (c :: acc) rest
        | none => none
      | e :: rest =>
        match shortEscape? e with
        | some c => parseString fuel (c :: acc) rest
        | none => none
      | [] => none
    else if c.toNat < 32 then none
    else parseString fuel (c :: acc) rest
  | _, _ => none

/-! ## Values -/

/-- Leave out the white space at the front. -/
def skipBlanks (cs : List Char) : List Char :=
  cs.dropWhile fun c => c = ' ' || c = '\n' || c = '\t' || c = '\r'

/-- Drop a word at the front. -/
def expect? (word : String) (cs : List Char) : Option (List Char) :=
  if word.toList.isPrefixOf cs then some (cs.drop word.length) else none

mutual

/-- One value, with blanks before it. `depth` is the nesting still allowed; `fuel` bounds the
steps. -/
def parseValue (fuel depth : Nat) (cs : List Char) : Option (Json × List Char) :=
  match fuel with
  | 0 => none
  | fuel + 1 =>
    match skipBlanks cs with
    | 'n' :: rest => (expect? "ull" rest).map fun rest => (.null, rest)
    | 't' :: rest => (expect? "rue" rest).map fun rest => (.bool true, rest)
    | 'f' :: rest => (expect? "alse" rest).map fun rest => (.bool false, rest)
    | '"' :: rest => (parseString (rest.length + 1) [] rest).map fun (s, rest) => (.string s, rest)
    | '-' :: rest => parseNumber true rest
    | '[' :: rest =>
      match depth with
      | 0 => none
      | depth + 1 =>
        match skipBlanks rest with
        | ']' :: rest => some (.array [], rest)
        | rest => parseItems fuel depth [] rest
    | '\x7b' :: rest =>
      match depth with
      | 0 => none
      | depth + 1 =>
        match skipBlanks rest with
        | '\x7d' :: rest => some (.object [], rest)
        | rest => parseMembers fuel depth [] rest
    | c :: rest => if c.isDigit then parseNumber false (c :: rest) else none
    | [] => none

/-- Items of an array up to its end. -/
def parseItems (fuel depth : Nat) (acc : List Json) (cs : List Char) : Option (Json × List Char) :=
  match fuel with
  | 0 => none
  | fuel + 1 =>
    match parseValue fuel depth cs with
    | none => none
    | some (j, rest) =>
      match skipBlanks rest with
      | ',' :: rest => parseItems fuel depth (j :: acc) rest
      | ']' :: rest => some (.array (j :: acc).reverse, rest)
      | _ => none

/-- Members of an object up to its end. -/
def parseMembers (fuel depth : Nat) (acc : List (String × Json)) (cs : List Char) :
    Option (Json × List Char) :=
  match fuel with
  | 0 => none
  | fuel + 1 =>
    match skipBlanks cs with
    | '"' :: rest =>
      match parseString (rest.length + 1) [] rest with
      | none => none
      | some (k, rest) =>
        match skipBlanks rest with
        | ':' :: rest =>
          match parseValue fuel depth rest with
          | none => none
          | some (j, rest) =>
            match skipBlanks rest with
            | ',' :: rest => parseMembers fuel depth ((k, j) :: acc) rest
            | '\x7d' :: rest => some (.object (Value.orderFields ((k, j) :: acc).reverse), rest)
            | _ => none
        | _ => none
    | _ => none

end

/-- The value that a text holds, with nothing but blanks around it. -/
def parse? (text : String) : Option Json :=
  match parseValue (2 * text.length + 2) 127 text.toList with
  | some (j, rest) => if (skipBlanks rest).isEmpty then some j else none
  | none => none

end Json

end QueryTree
