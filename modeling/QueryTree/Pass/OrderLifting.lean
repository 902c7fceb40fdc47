import QueryTree.Expr.Equality
import QueryTree.Expr.Traverse
import QueryTree.Pass.Basic

/-!
# Ordering normalization

Orderings written deep inside a query are lifted to the outermost block, where SQL can express them.
Outer keys win and lifted inner keys break their ties. `OrderLifting.lift` walks down the relational
nodes and returns the tree without its orderings together with the keys by which its rows are to be
ordered:

* a limit keeps its ordering, since the rows it selects depend on it, and passes the keys on;
* a projection that is not the outermost one exposes the keys as columns of its own, adding those it
  does not have under fresh names;
* a DISTINCT projection ordered by a column it does not project becomes a grouping with `MIN(key)`
  where the dialect allows DISTINCT in aggregates, and otherwise takes the key into its list;
* below a set operation, a grouping or an aggregate the order of rows has no effect and is dropped.
-/

namespace QueryTree

namespace OrderLifting

/-- How the enclosing node uses the order of its input. -/
inductive Mode where
  /-- The enclosing node orders by keys that it can see. -/
  | expose
  /-- This is the outermost block; a projection keeps the ordering below it. -/
  | place
  /-- The order has no effect. -/
  | discard
deriving DecidableEq, Repr

/-- Outer keys, then the inner keys that are not among them. -/
def mergeKeys (outer inner : List OrderKey) : List OrderKey :=
  (outer ++ inner).foldl
    (fun merged key => if merged.any (·.expr == key.expr) then merged else merged ++ [key]) []

/-- A limit directly over an ordering by exactly these keys. -/
def isLimitedBy (keys : List OrderKey) : Expr → Bool
  | .limit (.order _ existing) _ _ => existing == keys
  | _ => false

/-- Order a relation, unless there is nothing to order by. -/
def orderedBy (keys : List OrderKey) (input : Expr) : Expr :=
  if keys.isEmpty then input else .order input keys

/-! ## Exposing keys as columns -/

/-- `base`, or else the first of `base1`, `base2`, … that is not taken. -/
def freshName (taken : List String) (base : String) : String :=
  if taken.contains base then
    (((List.range taken.length).map fun i => base ++ toString (i + 1)).find?
      fun name => !taken.contains name).getD base
  else base

/-- The name that a key would like as a column. -/
def keyName : Expr → String
  | .column _ name _ => name
  | _ => "c"

/-- Columns after exposing a list of keys, and the keys in terms of those columns. A key is found
among the columns by `isShown`; one that is not found is added as `shown` of it. -/
def exposeKeys (qualifier : String) (isShown : Expr → Expr → Bool) (shown : Expr → Expr) :
    List Column → List OrderKey → List Column × List OrderKey
  | columns, [] => (columns, [])
  | columns, key :: rest =>
    let (columns, name) :=
      match columns.find? fun c => isShown c.expr key.expr with
      | some existing => (columns, existing.name)
      | none =>
        let name := freshName (columns.map (·.name)) (keyName key.expr)
        (columns ++ [⟨name, shown key.expr⟩], name)
    let (columns, keys) := exposeKeys qualifier isShown shown columns rest
    (columns, ⟨.column qualifier name key.expr.type, key.direction⟩ :: keys)

/-- The least value of an expression in a group. -/
def minOf (e : Expr) : Expr := Expr.mkAggregate .min (some e) false

/-- Expose keys through a DISTINCT projection: the projection and the keys above it. -/
def exposeDistinct (distinctInAggregates : Bool) (qualifier : String) (input : Expr)
    (columns : List Column) (keys : List OrderKey) : Expr × List OrderKey :=
  let unmatched := keys.any fun k => !columns.any fun c => c.expr == k.expr
  let grouped := unmatched && distinctInAggregates
  let groupBy := if grouped then columns.map (·.expr) else []
  let shown := fun e => if groupBy.isEmpty then e else minOf e
  let isShown := fun column key => column == key || column == minOf key
  let (columns, keys) := exposeKeys qualifier isShown shown columns keys
  (.project qualifier input columns (!grouped) groupBy, keys)

/-! ## Lifting -/

/-- A projection over an input whose orderings have been lifted to `keys`. -/
def liftProjection (distinctInAggregates : Bool) (mode : Mode) (qualifier : String)
    (columns : List Column) (distinct : Bool) (groupBy : List Expr) (input : Expr)
    (keys : List OrderKey) : Expr × List OrderKey :=
  if keys.isEmpty || mode = .discard || !groupBy.isEmpty ||
      columns.any (fun c => c.expr.hasAggregate) then
    (.project qualifier input columns distinct groupBy, [])
  else if distinct then exposeDistinct distinctInAggregates qualifier input columns keys
  else if mode = .place then
    let input := if isLimitedBy keys input then input else .order input keys
    (.project qualifier input columns distinct groupBy, [])
  else
    let (columns, keys) := exposeKeys qualifier (fun column key => column == key) id columns keys
    (.project qualifier input columns distinct groupBy, keys)

/-- The error for a tree that produces no rows. -/
def notRelational (e : Expr) : QueryError :=
  .unsupported e.kind "expected a relational node where rows are produced"

/-- The tree without the orderings that can be lifted, and the keys that order its rows. -/
def lift (distinctInAggregates : Bool) (mode : Mode) :
    Expr → Except QueryError (Expr × List OrderKey)
  | .scan source qualifier t => .ok (.scan source qualifier t, [])
  | .filter input predicate => do
    let (input, keys) ← lift distinctInAggregates mode input
    pure (.filter input predicate, keys)
  | .order input outer => do
    let (input, inner) ← lift distinctInAggregates mode input
    pure (input, mergeKeys outer inner)
  | .limit input take skip => do
    let (input, keys) ← lift distinctInAggregates mode input
    pure (.limit (orderedBy keys input) take skip, keys)
  | .project qualifier input columns distinct groupBy => do
    let (input, keys) ← lift distinctInAggregates .expose input
    pure (liftProjection distinctInAggregates mode qualifier columns distinct groupBy input keys)
  | .join kind left right on => do
    let (left, leftKeys) ← lift distinctInAggregates .expose left
    let (right, rightKeys) ← lift distinctInAggregates .expose right
    pure (.join kind left right on, mergeKeys leftKeys rightKeys)
  | .setOp op all left right qualifier => do
    let (left, _) ← lift distinctInAggregates .discard left
    let (right, _) ← lift distinctInAggregates .discard right
    pure (.setOp op all left right qualifier, [])
  | .const v t => .error (notRelational (.const v t))
  | .param n t => .error (notRelational (.param n t))
  | .member e n t => .error (notRelational (.member e n t))
  | .column a n t => .error (notRelational (.column a n t))
  | .binary op l r t => .error (notRelational (.binary op l r t))
  | .unary op e t => .error (notRelational (.unary op e t))
  | .call n as t => .error (notRelational (.call n as t))
  | .aggregate f a d t => .error (notRelational (.aggregate f a d t))
  | .lambda ps b => .error (notRelational (.lambda ps b))

/-- Lift every ordering, and order the outermost block by what has been lifted. -/
def normalize (distinctInAggregates : Bool) (e : Expr) : Except QueryError Expr := do
  let (e, keys) ← lift distinctInAggregates .place e
  pure (if isLimitedBy keys e then e else orderedBy keys e)

end OrderLifting

/-- Ordering normalization as a pass. -/
def Pass.ordering (distinctInAggregates : Bool) : Pass where
  name := "ordering_normalization"
  description := "Lifts ORDER BY clauses out of subqueries to the outermost block"
  run := OrderLifting.normalize distinctInAggregates

end QueryTree
