import QueryTree.Provider.Callable

/-!
# A scripted backend

A backend that does what it is told: it fails to compile, or returns a callable of a given shape
which fails, or answers with the list of its arguments. It serves to exercise the cache of compiled
queries.
-/

namespace QueryTree

/-- The shape of a scripted callable. -/
inductive ScriptedShape where
  /-- As many arguments as the query has. -/
  | matching
  | fixed (arity : Nat)
  | variadic

/-- A backend whose answers are fixed in advance. -/
structure ScriptedBackend where
  /-- The text with which compiling fails. -/
  compileFault : Option String := none
  shape : ScriptedShape := .matching
  /-- The fault of every call. -/
  callFault : Option Fault := none

namespace ScriptedBackend

/-- What a call does. -/
def answer (script : ScriptedBackend) (args : List Value) : Action Value :=
  match script.callFault with
  | some fault => throw fault
  | none => return .list args

/-- The backend that follows the script. A compilation counts also when it fails. -/
def backend (key : String) (script : ScriptedBackend) : Backend := fun q => do
  Action.recordCompilation key
  match script.compileFault with
  | some text => throw (.other text)
  | none =>
    return match script.shape with
      | .matching => .ofArity q.arity script.answer
      | .fixed n => .ofArity n script.answer
      | .variadic => .variadic script.answer

end ScriptedBackend

end QueryTree
