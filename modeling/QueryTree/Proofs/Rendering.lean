import QueryTree.Proofs.Attempt
import QueryTree.Sql.Render

/-!
# Equations of the renderer

A query is a set operation between two queries or a SELECT over a from-item, and a from-item that is
no table and no join is a query under an alias. The two call each other on trees that get smaller,
so neither unfolds by computation; the equations here are what later proofs use in its place, one
for each way a query (`query_of_setParts`, `query_of_block`) and a from-item (`fromItem_scan`,
`fromItem_join`, `fromItem_of_noAlias`, `fromItem_of_alias`) can be rendered.
-/

namespace QueryTree.Sql

variable {d : Dialect} {bare : Option String}

/-! ### Lists of scalars -/

/-- Scalars are written one by one. -/
theorem scalars_eq (es : List Expr) : scalars d bare es = es.mapM (scalar d bare) := by
  induction es with
  | nil => rfl
  | cons e es ih => rw [scalars, ih, List.mapM_cons]

/-! ### Queries -/

/-- A set operation is its branches with the operator between them. -/
theorem query_of_setParts {e : Expr} {s : Block.SetParts}
    (h : (Block.split e).setParts? = some s) :
    query d e = (do
      let l ← query d s.left
      let r ← query d s.right
      pure (branch s.left l ++ word (setText s.op s.all) ++ branch s.right r)) := by
  rw [query]
  split
  next s' hs' =>
    obtain rfl : s' = s := Option.some.inj (hs'.symm.trans h)
    rfl
  next hnone => cases hnone.symm.trans h

/-- Any other query is a SELECT. -/
theorem query_of_block {e : Expr} (h : (Block.split e).setParts? = none) :
    query d e = select d (Block.split e) (fromItem d (Block.split e).source) := by
  rw [query]
  split
  next s hs => cases hs.symm.trans h
  next => rfl

/-! ### From-items -/

/-- The from-item of a scan is its table. -/
theorem fromItem_scan (source : Expr) (qualifier : String) (t : LogicalType) :
    fromItem d (.scan source qualifier t) = scanItem d source qualifier := by
  rw [fromItem]

/-- The from-item of a join is made of those of its sides. -/
theorem fromItem_join (kind : JoinKind) (left right : Expr) (on : Option Expr) :
    fromItem d (.join kind left right on) = (do
      let l ← fromItem d left
      let r ← fromItem d right
      let condition ← joinCondition d kind on
      pure (l ++ word (" " ++ joinText kind ++ " ") ++ r ++ condition)) := by
  rw [fromItem]

/-- A query over one table is the SELECT of its block. -/
theorem query_over_table {e source : Expr} {qualifier : String} {t : LogicalType}
    (hparts : (Block.split e).setParts? = none)
    (hsource : (Block.split e).source = .scan source qualifier t) :
    query d e = select d (Block.split e) (scanItem d source qualifier) := by
  rw [query_of_block hparts, hsource, fromItem_scan]

section Derived

variable {e : Expr} (hscan : ∀ source qualifier t, e = .scan source qualifier t → False)
  (hjoin : ∀ kind left right on, e = .join kind left right on → False)

include hscan hjoin

/-- A subquery with no single alias is an error. -/
theorem fromItem_of_noAlias (h : subqueryAlias? e = none) :
    fromItem d e = .error (.unsupported e.kind "subquery has no single alias") := by
  rw [fromItem]
  · split
    next => rfl
    next qualifier hq => cases hq.symm.trans h
  · exact hscan
  · exact hjoin

/-- Any other subquery is put in parentheses, with its alias. -/
theorem fromItem_of_alias {qualifier : String} (h : subqueryAlias? e = some qualifier) :
    fromItem d e = (do
      let sql ← query d e
      pure (parenthesized sql ++ word (" AS " ++ qualifier))) := by
  rw [fromItem]
  · split
    next hnone => cases hnone.symm.trans h
    next q hq =>
      obtain rfl : q = qualifier := Option.some.inj (hq.symm.trans h)
      rfl
  · exact hscan
  · exact hjoin

end Derived

end QueryTree.Sql
