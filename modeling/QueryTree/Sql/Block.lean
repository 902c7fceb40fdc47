import QueryTree.Expr.Basic

/-!
# Blocks

One SELECT block takes up, from the top down, at most

    limit, ordering, projection, limit, ordering, filters, from-item

and any node met out of that order belongs to a nested block. `Block.split` takes the nodes of one
block off a tree; `Block.toExpr` puts them back.

The limit below a projection is rendered as the limit of the whole block. That is allowed when
nothing above it depends on the number of rows and the projection maps rows one to one.
-/

namespace QueryTree

/-- How many rows to take and to skip. -/
structure Window where
  take : Option Expr
  skip : Option Expr

/-- The projection of a block, without its input. -/
structure Projection where
  qualifier : String
  columns : List Column
  distinct : Bool
  groupBy : List Expr

/-- The clauses of one SELECT. -/
structure Block where
  outerLimit : Option Window := none
  outerOrder : List OrderKey := []
  projection : Option Projection := none
  innerLimit : Option Window := none
  innerOrder : List OrderKey := []
  /-- Filters, the outermost first. -/
  filters : List Expr := []
  /-- The from-item. -/
  source : Expr

namespace Block

/-- A limit below the projection may be rendered as the limit of the block. -/
def allowsInnerLimit (b : Block) : Bool :=
  b.outerLimit.isNone && b.outerOrder.isEmpty &&
    b.projection.all fun p => !p.distinct && p.groupBy.isEmpty

/-- The block is its from-item alone. -/
def isBare (b : Block) : Bool :=
  b.outerLimit.isNone && b.outerOrder.isEmpty && b.projection.isNone && b.innerLimit.isNone &&
    b.innerOrder.isEmpty && b.filters.isEmpty

/-- A set operation with nothing around it: the block is a query between two queries. -/
structure SetParts where
  op : SetOperator
  all : Bool
  left : Expr
  right : Expr

/-- The parts of a set operation without clauses around it. -/
def setParts? (b : Block) : Option SetParts :=
  if b.isBare then
    match b.source with
    | .setOp op all left right _ => some ⟨op, all, left, right⟩
    | _ => none
  else none

/-- Take nodes off a tree into a block. The stage counts the clauses that have been passed: 1 the
outer limit, 2 the outer ordering, 3 the projection, 4 the inner limit, 5 the inner ordering. -/
def absorb (stage : Nat) (b : Block) : Expr → Block
  | .limit input take skip =>
    if stage = 0 then absorb 1 { b with outerLimit := some ⟨take, skip⟩ } input
    else if stage = 3 ∧ b.allowsInnerLimit then
      absorb 4 { b with innerLimit := some ⟨take, skip⟩ } input
    else { b with source := .limit input take skip }
  | .order input keys =>
    if stage ≤ 1 then absorb 2 { b with outerOrder := keys } input
    else if stage = 3 ∨ stage = 4 then absorb 5 { b with innerOrder := keys } input
    else { b with source := .order input keys }
  | .project qualifier input columns distinct groupBy =>
    if stage ≤ 2 then
      absorb 3 { b with projection := some ⟨qualifier, columns, distinct, groupBy⟩ } input
    else { b with source := .project qualifier input columns distinct groupBy }
  | .filter input predicate => absorb 5 { b with filters := b.filters ++ [predicate] } input
  | e => { b with source := e }

/-- The outermost block of a tree. -/
def split (e : Expr) : Block := absorb 0 { source := e } e

/-! ## The tree of a block -/

/-- A tree under a limit, if there is one. -/
def underLimit (w : Option Window) (e : Expr) : Expr :=
  match w with
  | some w => .limit e w.take w.skip
  | none => e

/-- A tree under an ordering, if there are keys. -/
def underOrder (keys : List OrderKey) (e : Expr) : Expr :=
  if keys.isEmpty then e else .order e keys

/-- A tree under a projection, if there is one. -/
def underProjection (p : Option Projection) (e : Expr) : Expr :=
  match p with
  | some p => .project p.qualifier e p.columns p.distinct p.groupBy
  | none => e

/-- The clauses of a block around its from-item. -/
def toExpr (b : Block) : Expr :=
  underLimit b.outerLimit <| underOrder b.outerOrder <| underProjection b.projection <|
    underLimit b.innerLimit <| underOrder b.innerOrder <|
      b.filters.foldr (fun p e => .filter e p) b.source

/-! ## The from-item -/

/-- The node heads a block: it can be taken off as a clause. -/
def isClause : Expr → Bool
  | .limit .. | .order .. | .project .. | .filter .. => true
  | _ => false

/-- The from-item is no larger than the tree it was taken from. -/
theorem sizeOf_source_absorb_le (stage : Nat) (b : Block) (e : Expr) :
    sizeOf (absorb stage b e).source ≤ sizeOf e := by
  fun_induction absorb stage b e <;> simp_all only [Expr.limit.sizeOf_spec, Expr.order.sizeOf_spec,
    Expr.project.sizeOf_spec, Expr.filter.sizeOf_spec] <;> omega

/-- A clause at the root is taken off, so the from-item lies strictly below it. -/
theorem sizeOf_source_split_lt {e : Expr} (h : isClause e = true) :
    sizeOf (split e).source < sizeOf e := by
  cases e with
  | limit input take skip =>
    have := sizeOf_source_absorb_le 1
      { source := .limit input take skip, outerLimit := some ⟨take, skip⟩ } input
    simp only [split, absorb, if_true, Expr.limit.sizeOf_spec]
    omega
  | order input keys =>
    have := sizeOf_source_absorb_le 2 { source := .order input keys, outerOrder := keys } input
    simp only [split, absorb, Nat.zero_le, if_true, Expr.order.sizeOf_spec]
    omega
  | project qualifier input columns distinct groupBy =>
    have := sizeOf_source_absorb_le 3
      { source := .project qualifier input columns distinct groupBy
        projection := some ⟨qualifier, columns, distinct, groupBy⟩ } input
    simp only [split, absorb, Nat.zero_le, if_true, Expr.project.sizeOf_spec]
    omega
  | filter input predicate =>
    have := sizeOf_source_absorb_le 5
      { source := .filter input predicate, filters := [predicate] } input
    simp only [split, absorb, List.nil_append, Expr.filter.sizeOf_spec]
    omega
  | _ => simp [isClause] at h

/-- The branches of a set operation lie strictly below it. -/
theorem sizeOf_setParts_lt {b : Block} {s : SetParts} (h : b.setParts? = some s) :
    sizeOf s.left < sizeOf b.source ∧ sizeOf s.right < sizeOf b.source := by
  unfold setParts? at h
  split at h
  · split at h
    · rename_i heq
      cases h
      simp only [heq, Expr.setOp.sizeOf_spec]
      omega
    · cases h
  · cases h

/-- A set operation at the root is a block of its own. -/
theorem setParts?_split_setOp (op : SetOperator) (all : Bool) (left right : Expr)
    (qualifier : String) :
    (split (.setOp op all left right qualifier)).setParts? = some ⟨op, all, left, right⟩ := rfl

/-- Splitting off clauses does not make the from-item larger than the tree. -/
theorem sizeOf_source_split_le (e : Expr) : sizeOf (split e).source ≤ sizeOf e :=
  sizeOf_source_absorb_le 0 _ e

end Block

end QueryTree
