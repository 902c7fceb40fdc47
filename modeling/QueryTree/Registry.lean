import QueryTree.Pipeline
import QueryTree.Postgres.Type

/-!
# The registry of dialects and plug-ins

A registry holds dialects by name, passes that every pipeline built from it runs, and the plug-ins
that have been loaded. A dialect registered again under its name replaces the earlier one and moves
to the end.

A plug-in is a list of registrations and an outcome. When it fails it is not listed as loaded; what
it had registered by then stays.
-/

namespace QueryTree

/-- What a plug-in says about itself. -/
structure PluginInfo where
  name : String
  version : String
  description : String
deriving DecidableEq, Repr

/-- The dialects, the passes and the plug-ins at hand. -/
structure Registry where
  dialects : List Dialect := []
  passes : List Pass := []
  plugins : List PluginInfo := []

/-- What a plug-in can add to a registry. -/
inductive Registration where
  | dialect (d : Dialect)
  | pass (p : Pass)

/-- A plug-in: what it registers, and whether it fails after that. -/
structure Plugin where
  info : PluginInfo
  registrations : List Registration
  /-- How the plug-in ends after its registrations. -/
  outcome : Except Fault Unit := .ok ()

namespace Registry

/-- A registry with nothing in it. -/
def empty : Registry := {}

/-- Register a dialect, in place of an earlier one of the same name. -/
def addDialect (r : Registry) (d : Dialect) : Registry :=
  { r with dialects := r.dialects.filter (·.name != d.name) ++ [d] }

/-- Register a pass for every pipeline. -/
def addPass (r : Registry) (p : Pass) : Registry := { r with passes := r.passes ++ [p] }

/-- Register a dialect or a pass. -/
def register (r : Registry) : Registration → Registry
  | .dialect d => r.addDialect d
  | .pass p => r.addPass p

/-- Load a plug-in: its outcome and the registry after it. -/
def load (r : Registry) (p : Plugin) : Except Fault Unit × Registry :=
  let registered := p.registrations.foldl register r
  match p.outcome with
  | .ok () => (.ok (), { registered with plugins := registered.plugins ++ [p.info] })
  | .error fault => (.error fault, registered)

/-- The dialect of a name. -/
def dialect? (r : Registry) (name : String) : Option Dialect := r.dialects.find? (·.name == name)

/-- The names of the dialects, in the order in which they are listed. -/
def dialectNames (r : Registry) : List String := r.dialects.map (·.name)

/-- The pipeline into a dialect, with all registered passes. -/
def pipeline (r : Registry) (name : String) : Except QueryError Pipeline :=
  match r.dialect? name with
  | some d => .ok ⟨d, r.passes⟩
  | none => .error (.configuration s!"unknown dialect '{name}'")

end Registry

/-- The PostgreSQL plug-in. It refuses to register a dialect whose types cannot be bound. -/
def Plugin.postgres : Plugin :=
  let info : PluginInfo := ⟨"postgres", "0.1.0", "PostgreSQL dialect and parameter types"⟩
  match TypeMap.ofSystem .standard with
  | .ok _ => ⟨info, [.dialect .postgres], .ok ()⟩
  | .error e => ⟨info, [], .error (.query e)⟩

end QueryTree
