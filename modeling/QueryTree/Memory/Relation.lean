import QueryTree.Expr.Equality
import QueryTree.Expr.Traverse
import QueryTree.Scalar.Eval

/-!
# Relations

A relation is a list of rows with qualified column names. The operations of this module are those of
relational algebra on such lists: filter, sort, group, aggregate, join, and the set operations. Rows
keep the order of the input wherever an operation does not say otherwise.
-/

namespace QueryTree

/-- A column of a relation: the alias of the relation it comes from and its name. -/
abbrev QualifiedName := String × String

/-- Rows under columns with their aliases. -/
structure Relation where
  columns : List QualifiedName
  rows : List Row

namespace Relation

/-- Every row has one cell for each column. -/
def Rectangular (r : Relation) : Prop := ∀ row ∈ r.rows, row.length = r.columns.length

/-- The rows under the names of their columns, aliases left out. -/
def toRowSet (r : Relation) : RowSet := ⟨r.columns.map (·.2), r.rows⟩

/-! ## Rows as environments -/

/-- The position of the first column of an alias and name. -/
def index? (columns : List QualifiedName) (qualifier name : String) : Option Nat :=
  columns.findIdx? fun c => c.1 == qualifier && c.2 == name

/-- Columns as the cells of a row. There are no parameters. -/
def rowEnv (columns : List QualifiedName) (row : Row) : Env where
  parameter _ := none
  column qualifier name := (index? columns qualifier name).bind (row[·]?)

/-- The environment of a group that may be empty: its first row, or NULL in every column. -/
def groupEnv (columns : List QualifiedName) (group : List Row) : Env :=
  match group with
  | row :: _ => rowEnv columns row
  | [] =>
    { parameter := fun _ => none
      column := fun qualifier name => (index? columns qualifier name).map fun _ => .null }

/-! ## Filtering -/

/-- The rows on which a predicate evaluates to true. -/
def filterRows (columns : List QualifiedName) (predicate : Expr) :
    List Row → Except EvalError (List Row)
  | [] => .ok []
  | row :: rest => do
    let v ← predicate.evaluate (rowEnv columns row)
    let kept ← filterRows columns predicate rest
    pure (match v with
      | .bool true => row :: kept
      | _ => kept)

/-! ## Sorting -/

/-- Compare two rows by their key values. A descending key compares the other way round. -/
def compareKeys : List Direction → List Value → List Value → Ordering
  | d :: ds, a :: as, b :: bs =>
    (match d with
      | .ascending => a.sortCompare b
      | .descending => b.sortCompare a).then (compareKeys ds as bs)
  | _, _, _ => .eq

/-- Insert into a list that is ordered from the greatest down, before the first element that the new
one does not precede. -/
def insertDown {α : Type} (precedes : α → α → Bool) (x : α) : List α → List α
  | [] => [x]
  | y :: rest => if precedes x y then y :: insertDown precedes x rest else x :: y :: rest

/-- Sort by repeated insertion. Elements of which neither precedes the other keep their order.

Where `precedes` is the strict part of a total preorder on the elements, this is the one stable sort
of them. Elsewhere (keys of different kinds, a NaN) it stands for no particular sort: another may
give the elements in another order, or give up. -/
def stableSort {α : Type} (precedes : α → α → Bool) (xs : List α) : List α :=
  (xs.foldl (fun sorted x => insertDown precedes x sorted) []).reverse

/-- A row with the values of the ordering keys on it. -/
def withKeys (columns : List QualifiedName) (keys : List OrderKey) (row : Row) :
    Except EvalError (List Value × Row) := do
  return (← Expr.evaluateList (rowEnv columns row) (keys.map (·.expr)), row)

/-- Sort the rows by keys, the first key first. -/
def sort (r : Relation) (keys : List OrderKey) : Except EvalError Relation := do
  let keyed ← r.rows.mapM (withKeys r.columns keys)
  let precedes (a b : List Value × Row) : Bool :=
    compareKeys (keys.map (·.direction)) a.1 b.1 == .lt
  return { r with rows := (stableSort precedes keyed).map (·.2) }

/-! ## Grouping -/

/-- Each element once, at its first place. -/
def dedup {α : Type} [BEq α] (xs : List α) : List α :=
  xs.foldl (fun out x => if out.contains x then out else out ++ [x]) []

/-- Add a row to the group of its key, or open a new group. -/
def addToGroup (key : List Value) (row : Row) :
    List (List Value × List Row) → List (List Value × List Row)
  | [] => [(key, [row])]
  | (k, members) :: rest =>
    if k == key then (k, members ++ [row]) :: rest else (k, members) :: addToGroup key row rest

/-- Rows in groups of equal keys, groups in the order of their first rows. Without keys there is one
group, even of no rows. -/
def groupRows (r : Relation) (groupBy : List Expr) : Except EvalError (List (List Row)) := do
  if groupBy.isEmpty then return [r.rows]
  let groups ← r.rows.foldlM (fun groups row => do
    let key ← Expr.evaluateList (rowEnv r.columns row) groupBy
    return addToGroup key row groups) []
  return groups.map (·.2)

/-! ## Aggregates -/

/-- A sum of doubles from left to right, or the first value that is no number. -/
def sumFloats : Float → List Value → Except Value Float
  | total, [] => .ok total
  | total, v :: rest =>
    match v.asFloat? with
    | some x => sumFloats (total + x) rest
    | none => .error v

/-- A sum of integers from left to right; `none` is an overflow. -/
def sumInts? : Int64 → List Int64 → Option Int64
  | total, [] => some total
  | total, n :: rest => (Checked.add? total n).bind fun t => sumInts? t rest

/-- Integers are summed as integers; as soon as another number is among them, in doubles. -/
def sum (values : List Value) : Except Fault Value :=
  if values.isEmpty then .ok .null
  else
    match values.mapM Value.asInt? with
    | some ints => (sumInts? 0 ints).elim (.error (.other "SUM overflowed")) fun n => .ok (.int n)
    | none =>
      match sumFloats (-0.0) values with
      | .ok total => .ok (.float total)
      | .error v => .error (.other ("SUM over " ++ v.display))

/-- The average as a double, and NULL without values. -/
def average (values : List Value) : Except Fault Value :=
  if values.isEmpty then .ok .null
  else
    match sumFloats (-0.0) values with
    | .ok total => .ok (.float (total / Float.ofNat values.length))
    | .error v => .error (.other ("AVG over " ++ v.display))

/-- The first value that no later one beats in the wanted direction. -/
def extreme (wanted : Ordering) (values : List Value) : Value :=
  values.foldl
    (fun best v => if best.isNull || v.sqlCompare? best == some wanted then v else best) .null

/-- An aggregate over the values that are not NULL. -/
def aggregateValues (function : AggregateFunction) (values : List Value) : Except Fault Value :=
  match function with
  | .count => .ok (.int (Int64.ofNat values.length))
  | .sum => sum values
  | .avg => average values
  | .min => .ok (extreme .lt values)
  | .max => .ok (extreme .gt values)

/-- An evaluation as part of a larger computation. -/
def liftEval {α : Type} : Except EvalError α → Except Fault α
  | .ok a => .ok a
  | .error e => .error (.eval e)

/-- An aggregate over the rows of a group. Without an argument it counts rows, whatever its
function. -/
def aggregate (columns : List QualifiedName) (group : List Row) (function : AggregateFunction)
    (arg : Option Expr) (distinct : Bool) : Except Fault Value := do
  match arg with
  | none => return .int (Int64.ofNat group.length)
  | some e =>
    let values ← liftEval (group.mapM fun row => e.evaluate (rowEnv columns row))
    let present := values.filter fun v => !v.isNull
    aggregateValues function (if distinct then dedup present else present)

/-- The constant of an aggregate node over a group; any other node as it is. -/
def aggregateNode (columns : List QualifiedName) (group : List Row) : Expr → Except Fault Expr
  | .aggregate function arg distinct type =>
    return .const (← aggregate columns group function arg distinct) type
  | e => .ok e

/-- A column over a group: aggregates first, from the inside out, then the rest on the group's first
row. -/
def groupValue (columns : List QualifiedName) (group : List Row) (e : Expr) :
    Except Fault Value := do
  let reduced ← e.transformUpM (aggregateNode columns group)
  liftEval (reduced.evaluate (groupEnv columns group))

/-! ## Projection -/

/-- The rows of a projection. -/
def projectRows (input : Relation) (columns : List Column) (groupBy : List Expr) :
    Except Fault (List Row) := do
  if columns.any (fun c => c.expr.hasAggregate) || !groupBy.isEmpty then
    let groups ← liftEval (input.groupRows groupBy)
    groups.mapM fun group => columns.mapM fun c => groupValue input.columns group c.expr
  else
    liftEval (input.rows.mapM fun row =>
      Expr.evaluateList (rowEnv input.columns row) (columns.map (·.expr)))

/-- Columns computed from rows or groups, under an alias. -/
def project (input : Relation) (qualifier : String) (columns : List Column) (distinct : Bool)
    (groupBy : List Expr) : Except Fault Relation := do
  let rows ← projectRows input columns groupBy
  return ⟨columns.map fun c => (qualifier, c.name), if distinct then dedup rows else rows⟩

/-! ## Joins -/

/-- The rows of one left row with every right row that meets the condition. -/
def matching (columns : List QualifiedName) (on : Option Expr) (left : Row) (right : List Row) :
    Except EvalError (List Row) :=
  let combined := right.map (left ++ ·)
  match on with
  | none => .ok combined
  | some predicate => filterRows columns predicate combined

/-- The join of two relations. A left join keeps a row without a match, with NULL on the right;
right and full joins are not computed here. -/
def join (kind : JoinKind) (left right : Relation) (on : Option Expr) : Except Fault Relation := do
  match kind with
  | .right => throw (.other "Right joins are not supported in memory")
  | .full => throw (.other "Full joins are not supported in memory")
  | _ =>
    let columns := left.columns ++ right.columns
    let condition := if kind = .cross then none else on
    let rows ← liftEval (left.rows.mapM fun l => do
      let found ← matching columns condition l right.rows
      if kind = .left && found.isEmpty then
        return [l ++ List.replicate right.columns.length .null]
      else return found)
    return ⟨columns, rows.flatten⟩

/-! ## Set operations -/

/-- The rows of a set operation before repeats are dropped. -/
def combine (op : SetOperator) (left right : List Row) : List Row :=
  match op with
  | .union => left ++ right
  | .intersect => left.filter fun row => right.contains row
  | .except => left.filter fun row => !right.contains row

/-- A set operation on relations with equally many columns. The columns are those of the left side
under a new alias. -/
def setOperation (op : SetOperator) (all : Bool) (qualifier : String) (left right : Relation) :
    Except Fault Relation := do
  if left.columns.length ≠ right.columns.length then
    throw (.other <| "set operation branches have " ++ toString left.columns.length ++ " and " ++
      toString right.columns.length ++ " columns")
  let rows := combine op left.rows right.rows
  return ⟨left.columns.map fun c => (qualifier, c.2), if all then rows else dedup rows⟩

end Relation

end QueryTree
