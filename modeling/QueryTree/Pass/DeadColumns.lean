import QueryTree.Pass.Basic

/-!
# Dead-column elimination

Projected columns that no enclosing node reads are dropped. The walk goes from the root down with
the columns that the nodes above refer to. A projection whose columns are an output (the outermost
one, a branch of a set operation) and a DISTINCT projection keep all their columns; any other keeps
at least its first.
-/

namespace QueryTree

/-- A reference `alias.name`. -/
structure ColumnRef where
  qualifier : String
  name : String
deriving DecidableEq, Repr

namespace ColumnRef

/-- Order by alias, then by name. -/
def lt (a b : ColumnRef) : Bool :=
  a.qualifier < b.qualifier || (a.qualifier == b.qualifier && a.name < b.name)

/-- Put a reference into an ordered list without repeats. -/
def insert (r : ColumnRef) : List ColumnRef → List ColumnRef
  | [] => [r]
  | other :: rest =>
    if r.lt other then r :: other :: rest
    else if r = other then other :: rest
    else other :: insert r rest

/-- References in order, each once. -/
def ordered (refs : List ColumnRef) : List ColumnRef := refs.foldl (fun acc r => insert r acc) []

end ColumnRef

namespace Expr

mutual

/-- The columns that a scalar expression refers to. Relational nodes inside it have a scope of their
own and are passed over. -/
def columnRefs : Expr → List ColumnRef
  | column qualifier name _ => [⟨qualifier, name⟩]
  | member target _ _ => columnRefs target
  | binary _ left right _ => columnRefs left ++ columnRefs right
  | unary _ operand _ => columnRefs operand
  | call _ args _ => columnRefsList args
  | aggregate _ arg _ _ => columnRefsOption arg
  | lambda _ body => columnRefs body
  | const .. | param .. | scan .. | filter .. | project .. | order .. | limit .. | join ..
  | setOp .. => []

/-- The columns that several scalars refer to. -/
def columnRefsList : List Expr → List ColumnRef
  | [] => []
  | e :: rest => columnRefs e ++ columnRefsList rest

/-- The columns that an optional scalar refers to. -/
def columnRefsOption : Option Expr → List ColumnRef
  | none => []
  | some e => columnRefs e

end

/-- The columns that an expression refers to, in order and each once. -/
def referencedColumns (e : Expr) : List ColumnRef := ColumnRef.ordered e.columnRefs

/-- The columns of a projection that are read; if none is, the first stays. -/
def keptColumns (needed : List ColumnRef) (qualifier : String) (columns : List Column) :
    List Column :=
  let kept := columns.filter fun c => needed.contains ⟨qualifier, c.name⟩
  if kept.isEmpty then columns.take 1 else kept

/-- Drop the columns that are not in `needed` or read further down. Under `output` the columns of
the node are an output and stay. -/
def prune (needed : List ColumnRef) (output : Bool) : Expr → Expr
  | project qualifier input columns distinct groupBy =>
    let columns := if output || distinct then columns else keptColumns needed qualifier columns
    let inner := columnRefsList (columns.map (·.expr)) ++ columnRefsList groupBy
    project qualifier (prune inner false input) columns distinct groupBy
  | filter input predicate => filter (prune (needed ++ columnRefs predicate) output input) predicate
  | order input keys =>
    order (prune (needed ++ columnRefsList (keys.map (·.expr))) output input) keys
  | limit input take skip =>
    limit (prune (needed ++ columnRefsOption take ++ columnRefsOption skip) output input) take skip
  | join kind left right on =>
    let needed := needed ++ columnRefsOption on
    join kind (prune needed output left) (prune needed output right) on
  | setOp op all left right qualifier =>
    setOp op all (prune [] true left) (prune [] true right) qualifier
  | e => e

end Expr

/-- Dead-column elimination as a pass. -/
def Pass.deadColumns : Pass where
  name := "dead_column_elimination"
  description := "Removes projected columns no enclosing node refers to"
  run := fun e => .ok (e.prune [] true)

end QueryTree
