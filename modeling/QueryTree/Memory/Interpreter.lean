import QueryTree.Memory.Relation
import QueryTree.Value.Text

/-!
# Running a tree over tables

A relational tree denotes a relation over named tables; any other tree denotes the value it
evaluates to. Parameters must have been replaced beforehand, and sources folded to literal tables.
-/

namespace QueryTree

/-- Row sets by name. -/
abbrev Tables := List (String × RowSet)

/-- The table of a name. -/
def Tables.find? (tables : Tables) (name : String) : Option RowSet := tables.lookup name

namespace Expr

/-- The rows of a table under an alias. -/
def scanTable (tables : Tables) (table qualifier : String) : Except Fault Relation :=
  match tables.find? table with
  | some set => .ok ⟨set.columns.map fun c => (qualifier, c), set.rows⟩
  | none => .error (.other s!"unknown table '{table}'")

/-- The value of a bound on the number of rows. NULL is no bound, and a negative one counts as
zero. -/
def rowCount : Option Expr → Except Fault (Option Nat)
  | none => .ok none
  | some e => do
    match ← Relation.liftEval (e.evaluate .empty) with
    | .int n => return some n.toInt.toNat
    | .null => return none
    | v => throw (.other ("row count must be an integer, got " ++ v.display))

/-- The rows from `skip` on, at most `take` of them. -/
def window (skip take : Option Nat) (rows : List Row) : List Row :=
  let rest := rows.drop (skip.getD 0)
  match take with
  | some n => rest.take n
  | none => rest

/-- The relation that a relational tree denotes. -/
def relation (tables : Tables) : Expr → Except Fault Relation
  | .scan (.const (.source s) _) qualifier _ => scanTable tables s.table qualifier
  | .scan source _ _ =>
    .error (.other s!"scan source {source.kind.text} was not reduced to a table")
  | .filter input predicate => do
    let r ← relation tables input
    let rows ← Relation.liftEval (Relation.filterRows r.columns predicate r.rows)
    return { r with rows }
  | .project qualifier input columns distinct groupBy => do
    (← relation tables input).project qualifier columns distinct groupBy
  | .order input keys => do
    let r ← relation tables input
    Relation.liftEval (r.sort keys)
  | .limit input take skip => do
    let r ← relation tables input
    let skipped ← rowCount skip
    let taken ← rowCount take
    return { r with rows := window skipped taken r.rows }
  | .join kind left right on => do
    let l ← relation tables left
    let r ← relation tables right
    Relation.join kind l r on
  | .setOp op all left right qualifier => do
    let l ← relation tables left
    let r ← relation tables right
    Relation.setOperation op all qualifier l r
  | e => .error (.other s!"{e.kind.text} is not a relation")

/-- The value of a tree: a row set when it is relational, else a scalar. -/
def run (tables : Tables) (e : Expr) : Except Fault Value :=
  if e.isRelational then return .rows (← relation tables e).toRowSet
  else Relation.liftEval (e.evaluate .empty)

end Expr

end QueryTree
