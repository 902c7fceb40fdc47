import QueryTree.Postgres.Connection
import QueryTree.Registry
import QueryTree.Toml.Document

/-!
# Settings

What a configuration document sets: the level of logging, dialects beside the built-in one, and a
connection. Keys that are not known are passed over. `Settings.parse?` reads a document and
`Settings.render` writes one, without the password and without what is not set.
-/

namespace QueryTree

/-! ## Reading values -/

namespace Toml

/-- The text, if it is one. -/
def asText? : Toml → Option String
  | text s => some s
  | _ => none

/-- The truth value, if it is one. -/
def asBool? : Toml → Option Bool
  | boolean b => some b
  | _ => none

/-- A number from zero to a bound. -/
def asNat? (bound : Nat) : Toml → Option Nat
  | integer n => if 0 ≤ n.toInt ∧ n.toInt ≤ bound then some n.toInt.toNat else none
  | _ => none

/-- The name of an alternative: a text, or the only key of a table that holds nothing else. -/
def asChoice? : Toml → Option String
  | text s => some s
  | table [(name, table [])] => some name
  | table [(name, array [])] => some name
  | _ => none

/-- The fields of an object: by key in a table, by position in an array. -/
def fields? (names : List String) : Toml → Option (String → Option Toml)
  | table entries => some fun name => entries.lookup name
  | array items => some fun name => (names.idxOf? name).bind (items[·]?)
  | _ => none

/-- A field that has to be there. -/
def required {α : Type} (fields : String → Option Toml) (name : String) (read : Toml → Option α) :
    Option α :=
  (fields name).bind read

/-- A field with a default. -/
def withDefault {α : Type} (fields : String → Option Toml) (name : String)
    (read : Toml → Option α) (default : α) : Option α :=
  match fields name with
  | some v => read v
  | none => some default

end Toml

/-! ## Dialects and connections -/

namespace QuoteStyle

/-- The style in configuration files. -/
def spelling : QuoteStyle → String
  | .none => "none"
  | .double => "double"
  | .backtick => "backtick"
  | .bracket => "bracket"

/-- The quote style of a spelling. -/
def ofSpelling? (s : String) : Option QuoteStyle :=
  [QuoteStyle.none, .double, .backtick, .bracket].find? (·.spelling == s)

end QuoteStyle

namespace PlaceholderStyle

/-- The style in configuration files. -/
def spelling : PlaceholderStyle → String
  | dollar => "dollar"
  | question => "question"
  | named => "named"

/-- The placeholder style of a spelling. -/
def ofSpelling? (s : String) : Option PlaceholderStyle :=
  [dollar, question, named].find? (·.spelling == s)

end PlaceholderStyle

open Toml in
/-- A dialect from its description. Only the name is needed. -/
def Dialect.ofToml? (v : Toml) : Option Dialect := do
  let f ← fields? ["name", "allows_multiple_statements", "allows_distinct_in_aggregates",
    "quote_style", "placeholder_style", "generated_id_function", "rows_affected_function"] v
  let base : Dialect := {}
  return {
    name := ← required f "name" asText?
    multipleStatements :=
      ← withDefault f "allows_multiple_statements" asBool? base.multipleStatements
    distinctInAggregates :=
      ← withDefault f "allows_distinct_in_aggregates" asBool? base.distinctInAggregates
    quoteStyle :=
      ← withDefault f "quote_style" (fun v => v.asChoice?.bind QuoteStyle.ofSpelling?)
        base.quoteStyle
    placeholderStyle :=
      ← withDefault f "placeholder_style" (fun v => v.asChoice?.bind PlaceholderStyle.ofSpelling?)
        base.placeholderStyle
    generatedIdFunction :=
      ← withDefault f "generated_id_function" asText? base.generatedIdFunction
    rowsAffectedFunction :=
      ← withDefault f "rows_affected_function" asText? base.rowsAffectedFunction }

open Toml in
/-- A connection from its description. The server, the database and the user are needed. -/
def ConnectionSettings.ofToml? (v : Toml) : Option ConnectionSettings := do
  let f ← fields? ["host", "port", "database", "username", "password", "ssl_mode",
    "accept_invalid_certs", "ca_cert_path", "pool_size"] v
  let base : ConnectionSettings := {}
  return {
    host := ← required f "host" asText?
    portNumber := ← required f "port" (asNat? 65535)
    database := ← required f "database" asText?
    username := ← required f "username" asText?
    password := ← withDefault f "password" asText? base.password
    tlsMode :=
      ← withDefault f "ssl_mode" (fun v => v.asChoice?.bind TlsMode.ofSpelling?) base.tlsMode
    acceptInvalidCertificates :=
      ← withDefault f "accept_invalid_certs" asBool? base.acceptInvalidCertificates
    caPath := ← withDefault f "ca_cert_path" (fun v => v.asText?.map some) base.caPath
    poolSize := ← withDefault f "pool_size" (asNat? (UInt64.size - 1)) base.poolSize }

/-! ## Levels of logging -/

/-- How much is logged. -/
inductive LogLevel where
  | error | warn | info | debug | trace
deriving DecidableEq, Repr

namespace LogLevel

/-- The name of a level in the log. -/
def name : LogLevel → String
  | error => "ERROR"
  | warn => "WARN"
  | info => "INFO"
  | debug => "DEBUG"
  | trace => "TRACE"

/-- The levels, the least talkative first. -/
def all : List LogLevel := [error, warn, info, debug, trace]

/-- The number in decimal digits, with or without a plus sign. -/
def number? (s : String) : Option Nat :=
  let ds := match s.toList with
    | '+' :: ds => ds
    | ds => ds
  if ds.isEmpty || !ds.all Char.isDigit then none
  else some (ds.foldl (fun n c => n * 10 + (c.toNat - 48)) 0)

/-- A level by its name, in any case, or by its number from 1. -/
def ofText? (s : String) : Option LogLevel :=
  let byNumber := (number? s).bind fun
    | 0 => none
    | n + 1 => all[n]?
  byNumber.or (all.find? fun level => LetterCase.sameIgnoringCase level.name s)

end LogLevel

/-! ## Settings -/

/-- The settings of a session. -/
structure Settings where
  logLevel : String := "info"
  dialects : List Dialect := []
  postgres : Option ConnectionSettings := none
deriving DecidableEq, Repr

namespace Settings

/-- The dialects of a list of descriptions. -/
def dialectsOf? : Toml → Option (List Dialect)
  | .array items => items.mapM Dialect.ofToml?
  | _ => none

open Toml in
/-- The settings of a document that was read. -/
def ofToml? (v : Toml) : Option Settings := do
  let f ← fields? ["log_level", "dialects", "postgres"] v
  return {
    logLevel := ← withDefault f "log_level" asText? "info"
    dialects := ← withDefault f "dialects" dialectsOf? []
    postgres := ← withDefault f "postgres" (fun v => (ConnectionSettings.ofToml? v).map some) none }

/-- Read a configuration document. -/
def parse? (document : String) : Option Settings := (Toml.parse? document).bind ofToml?

/-- The settings of a file, given its text if it exists. Without a file there are defaults. -/
def load? (file : Option String) : Option Settings :=
  match file with
  | none => some {}
  | some document => parse? document

/-- The level that the settings name, or an error if there is none of that name. -/
def level (s : Settings) : Except QueryError LogLevel :=
  match LogLevel.ofText? s.logLevel with
  | some level => .ok level
  | none => .error (.configuration s!"unknown log level '{s.logLevel}'")

/-- Register dialects one after the other; each needs a name. -/
def addDialects : List Dialect → Registry → Except Fault Registry
  | [], r => .ok r
  | d :: rest, r =>
    if d.name = "" then .error (.query (.configuration "dialect without a name"))
    else addDialects rest (r.addDialect d)

/-- A registry with the PostgreSQL plug-in and every configured dialect. -/
def registry (s : Settings) : Except Fault Registry := do
  let (outcome, r) := Registry.empty.load .postgres
  outcome
  addDialects s.dialects r

/-! ## Writing -/

/-- A character between double quotes. -/
def escape (c : Char) : List Char :=
  if c = '"' ∨ c = '\\' then ['\\', c]
  else if c = '\n' then ['\\', 'n']
  else if c = '\r' then ['\\', 'r']
  else if c = '\t' then ['\\', 't']
  else if c.toNat < 0x20 ∨ c.toNat = 0x7F then
    ['\\', 'u'] ++ List.leftpad 4 '0' ((Nat.toDigits 16 c.toNat).map Char.toUpper)
  else [c]

/-- A line with a text. -/
def textLine (key s : String) : String :=
  key ++ " = \"" ++ String.ofList (s.toList.flatMap escape) ++ "\"\n"

/-- A line with a truth value. -/
def boolLine (key : String) (b : Bool) : String := key ++ " = " ++ toString b ++ "\n"

/-- A line with a number. -/
def natLine (key : String) (n : Nat) : String := key ++ " = " ++ toString n ++ "\n"

/-- A dialect as a table of the document. -/
def renderDialect (d : Dialect) : String :=
  "\n[[dialects]]\n" ++ textLine "name" d.name ++
    boolLine "allows_multiple_statements" d.multipleStatements ++
    boolLine "allows_distinct_in_aggregates" d.distinctInAggregates ++
    textLine "quote_style" d.quoteStyle.spelling ++
    textLine "placeholder_style" d.placeholderStyle.spelling ++
    textLine "generated_id_function" d.generatedIdFunction ++
    textLine "rows_affected_function" d.rowsAffectedFunction

/-- A connection as a table. The password is left out. -/
def renderConnection (c : ConnectionSettings) : String :=
  "\n[postgres]\n" ++ textLine "host" c.host ++ natLine "port" c.portNumber ++
    textLine "database" c.database ++ textLine "username" c.username ++
    textLine "ssl_mode" c.tlsMode.spelling ++
    boolLine "accept_invalid_certs" c.acceptInvalidCertificates ++
    (c.caPath.map (textLine "ca_cert_path")).getD "" ++ natLine "pool_size" c.poolSize

/-- The settings as a configuration document. -/
def render (s : Settings) : String :=
  textLine "log_level" s.logLevel ++ (if s.dialects.isEmpty then "dialects = []\n" else "") ++
    String.join (s.dialects.map renderDialect) ++ (s.postgres.map renderConnection).getD ""

end Settings

end QueryTree
