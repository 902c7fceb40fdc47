import QueryTree.Toml.Lexical

/-!
# Reading a configuration document

A document is a sequence of lines: assignments, table headers, comments, empty lines. Values nest
up to a fixed depth.
-/

namespace QueryTree.Toml

/-! ## Values -/

/-- The items of an array after its bracket, with fuel for every character. A comma may follow the
last item. -/
def arrayItems (item : Reader Toml) : Nat → List Char → Option (List Toml × List Char)
  | 0, _ => none
  | fuel + 1, cs =>
    match skipLines fuel cs with
    | ']' :: rest => some ([], rest)
    | cs => do
      let (v, rest) ← item cs
      match skipLines fuel rest with
      | ']' :: rest => return ([v], rest)
      | ',' :: rest =>
        let (vs, rest) ← arrayItems item fuel rest
        return (v :: vs, rest)
      | _ => none

/-- One assignment: a key, an equals sign, a value. -/
def assignment (item : Reader Toml) (cs : List Char) :
    Option ((List String × String × Toml) × List Char) := do
  let ((path, last), rest) ← key cs
  match rest with
  | '=' :: rest =>
    let (v, rest) ← item (skipSpaces rest)
    return ((path, last, v), rest)
  | _ => none

/-- The assignments of an inline table after the first, added to what was read. -/
def inlineEntries (item : Reader Toml) :
    Nat → Entries → List Char → Option (Entries × List Char)
  | 0, _, _ => none
  | fuel + 1, entries, cs => do
    let ((path, last, v), rest) ← assignment item cs
    let entries ← assign path last v entries
    match skipSpaces rest with
    | '\x7d' :: rest => return (entries, rest)
    | ',' :: rest => inlineEntries item fuel entries rest
    | _ => none

/-- A table on one line, after its brace. -/
def inlineTable (item : Reader Toml) (cs : List Char) : Option (Toml × List Char) :=
  match skipSpaces cs with
  | '\x7d' :: rest => some (.table [], rest)
  | cs => (inlineEntries item (cs.length + 1) [] cs).map fun (entries, rest) =>
    (.table (ofEntries entries), rest)

/-- A value that is no string, array or table. -/
def plainValue (cs : List Char) : Option (Toml × List Char) :=
  match cs with
  | 't' :: 'r' :: 'u' :: 'e' :: rest => some (.boolean true, rest)
  | 'f' :: 'a' :: 'l' :: 's' :: 'e' :: rest => some (.boolean false, rest)
  | cs =>
    match dateTime? cs with
    | some rest => some (.dateTime, rest)
    | none => number cs

/-- A value of at most this depth. -/
def value : Nat → Reader Toml
  | 0, _ => none
  | depth + 1, cs =>
    match cs with
    | '"' :: _ | '\'' :: _ => (anyString cs).map fun (s, rest) => (.text s, rest)
    | '[' :: rest =>
      (arrayItems (value depth) (rest.length + 1) rest).map fun (vs, rest) => (.array vs, rest)
    | '\x7b' :: rest => inlineTable (value depth) rest
    | cs => plainValue cs

/-! ## Lines -/

/-- A document under construction: everything so far, and the path of the open table. -/
structure Document where
  root : Entries := []
  current : List String := []

/-- The end of a header, after its key: the closing brackets and the end of the line. -/
def headerEnd? (closing : List Char) (cs : List Char) : Option (List Char) :=
  if closing.isPrefixOf cs then lineEnd? (cs.drop closing.length) else none

/-- A table header after its first bracket. -/
def header (doc : Document) : List Char → Option (Document × List Char)
  | '[' :: cs => do
    let ((path, last), rest) ← key cs
    let rest ← headerEnd? [']', ']'] rest
    return (⟨← openElement path last doc.root, path ++ [last]⟩, rest)
  | cs => do
    let ((path, last), rest) ← key cs
    let rest ← headerEnd? [']'] rest
    return (⟨← openTable path last doc.root, path ++ [last]⟩, rest)

/-- An assignment in the open table. -/
def line (doc : Document) (cs : List Char) : Option (Document × List Char) := do
  let ((path, last, v), rest) ← assignment (value maxDepth) cs
  let rest ← lineEnd? rest
  return ({ doc with root := ← underHeader (assign path last v) doc.current doc.root }, rest)

/-- All lines, with fuel for every character. -/
def lines : Nat → Document → List Char → Option Document
  | 0, _, _ => none
  | fuel + 1, doc, cs =>
    match skipLines cs.length cs with
    | [] => some doc
    | '[' :: rest => do
      let (doc, rest) ← header doc rest
      lines fuel doc rest
    | cs => do
      let (doc, rest) ← line doc cs
      lines fuel doc rest

/-- A mark of the byte order at the front does not count. -/
def skipByteOrderMark : List Char → List Char
  | '\uFEFF' :: rest => rest
  | cs => cs

/-- The table that a document stands for. -/
def parse? (s : String) : Option Toml := do
  let doc ← lines (s.length + 1) {} (skipByteOrderMark s.toList)
  return .table (ofEntries doc.root)

end QueryTree.Toml
