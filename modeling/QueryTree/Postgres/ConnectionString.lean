import QueryTree.Text.CharClass

/-!
# Connection strings

Settings as `key=value` pairs between blanks. A value may stand between single quotes, and then a
backslash stands for the character after it; `quote` writes any text so that it reads back as one
value. `read?` reads a whole string.
-/

namespace QueryTree.ConnectionString

/-! ## Writing -/

/-- A text with another in place of each occurrence of a character. -/
def replace (c : Char) (replacement text : List Char) : List Char :=
  text.flatMap fun d => if d = c then replacement else [d]

/-- A value between quotes: a backslash before each backslash, and then before each quote. -/
def quote (value : List Char) : List Char :=
  '\'' :: replace '\'' ['\\', '\''] (replace '\\' ['\\', '\\'] value) ++ ['\'']

/-! ## Reading -/

/-- Leave out the white space at the front. -/
def skipBlanks (cs : List Char) : List Char := cs.dropWhile CharClass.isBlank

/-- The characters of a key. -/
def isKeyChar (c : Char) : Bool := !CharClass.isBlank c && c != '='

/-- The rest of a quoted value, after its opening quote. A backslash at the very end stands for
nothing. -/
def readQuoted : List Char → Option (List Char × List Char)
  | [] => none
  | '\'' :: rest => some ([], rest)
  | ['\\'] => none
  | '\\' :: c :: rest => (readQuoted rest).map fun (v, left) => (c :: v, left)
  | c :: rest => (readQuoted rest).map fun (v, left) => (c :: v, left)

/-- A value without quotes, up to the next blank. -/
def readPlain : List Char → List Char × List Char
  | [] => ([], [])
  | ['\\'] => ([], [])
  | '\\' :: c :: rest =>
    let (v, left) := readPlain rest
    (c :: v, left)
  | c :: rest =>
    if CharClass.isBlank c then ([], c :: rest)
    else
      let (v, left) := readPlain rest
      (c :: v, left)

/-- A value, quoted or plain. A plain value is not empty. -/
def readValue : List Char → Option (List Char × List Char)
  | '\'' :: rest => readQuoted rest
  | cs =>
    let (v, left) := readPlain cs
    if v.isEmpty then none else some (v, left)

/-- The next pair, after its key. -/
def readAfterKey (cs : List Char) : Option (List Char × List Char) :=
  match skipBlanks cs with
  | '=' :: rest => readValue (skipBlanks rest)
  | _ => none

/-- The pairs, as many as there is fuel for. Every pair takes at least two characters. -/
def readPairs : Nat → List Char → Option (List (String × String))
  | 0, _ => none
  | fuel + 1, cs =>
    let cs := skipBlanks cs
    let key := cs.takeWhile isKeyChar
    if key.isEmpty then some []
    else do
      let (v, left) ← readAfterKey (cs.dropWhile isKeyChar)
      return (String.ofList key, String.ofList v) :: (← readPairs fuel left)

/-- The pairs of a connection string in order. -/
def read? (s : String) : Option (List (String × String)) :=
  readPairs (s.length + 1) s.toList

end QueryTree.ConnectionString
