import QueryTree.Error

/-!
# Callables

A backend compiles a query into a callable. Up to four arguments a callable has its own shape for
each number of them and is called without a list; beyond that, and where a backend prefers it, it
takes a list of any length.

Compiling and calling act on the world outside, of which only what can be asked about later is kept:
how often each backend compiled, and which statements were sent.
-/

namespace QueryTree

/-- A statement as a server received it: its text, the parameter types by name, the encoded
parameters. -/
structure SentStatement where
  sql : String
  types : List String
  params : List (Option (List UInt8))
deriving DecidableEq, Repr

/-- What backends have done so far, the latest last. Backends are named by their keys. -/
structure Activity where
  compilations : List String := []
  statements : List (String × SentStatement) := []
deriving DecidableEq, Repr

namespace Activity

/-- How often the query of a key was compiled. -/
def compilationsOf (a : Activity) (key : String) : Nat := a.compilations.count key

/-- The statements that were sent for a key, in order. -/
def statementsOf (a : Activity) (key : String) : List SentStatement :=
  (a.statements.filter (·.1 == key)).map (·.2)

end Activity

/-- A computation of a backend. What it did stays on record when it fails. -/
abbrev Action := ExceptT Fault (StateM Activity)

namespace Action

/-- Note one compilation by a backend. -/
def recordCompilation (key : String) : Action Unit :=
  modify fun a => { a with compilations := a.compilations ++ [key] }

/-- Note a statement sent by a backend. -/
def recordStatement (key : String) (s : SentStatement) : Action Unit :=
  modify fun a => { a with statements := a.statements ++ [(key, s)] }

end Action

/-- A compiled query, by the number of arguments it takes. -/
inductive Callable where
  | nullary (f : Action Value)
  | unary (f : Value → Action Value)
  | binary (f : Value → Value → Action Value)
  | ternary (f : Value → Value → Value → Action Value)
  | quaternary (f : Value → Value → Value → Value → Action Value)
  | variadic (f : List Value → Action Value)

namespace Callable

/-- A function on lists in the shape for a number of arguments. -/
def ofArity (arity : Nat) (f : List Value → Action Value) : Callable :=
  match arity with
  | 0 => nullary (f [])
  | 1 => unary fun a => f [a]
  | 2 => binary fun a b => f [a, b]
  | 3 => ternary fun a b c => f [a, b, c]
  | 4 => quaternary fun a b c d => f [a, b, c, d]
  | _ => variadic f

/-- The number of arguments, unless it is open. -/
def arity? : Callable → Option Nat
  | nullary _ => some 0
  | unary _ => some 1
  | binary _ => some 2
  | ternary _ => some 3
  | quaternary _ => some 4
  | variadic _ => none

/-- Call with a list of arguments. It fails when their number is wrong. -/
def call (c : Callable) (args : List Value) : Action Value :=
  match c, args with
  | nullary f, [] => f
  | unary f, [x] => f x
  | binary f, [x, y] => f x y
  | ternary f, [x, y, z] => f x y z
  | quaternary f, [x, y, z, w] => f x y z w
  | variadic f, args => f args
  | c, args =>
    let taken := c.arity?.getD 0
    throw (.other s!"callable takes {taken} argument(s), got {args.length}")

/-- The callable in words. -/
def text (c : Callable) : String :=
  match c.arity? with
  | some n => s!"NativeQuery(arity {n})"
  | none => "NativeQuery(variadic)"

end Callable

/-- A backend, as the function that compiles queries. -/
abbrev Backend := Query → Action Callable

/-- The backend behind each identity. -/
abbrev Backends := ProviderId → Backend

end QueryTree
