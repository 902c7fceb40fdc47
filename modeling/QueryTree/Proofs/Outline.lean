import QueryTree.Proofs.Rendering
import QueryTree.Proofs.Tree

/-!
# Statements as outlines

The renderer writes a statement as one line of tokens, in which the clauses are no longer to be told
apart. An outline is the same statement as a tree: a SELECT has its clauses as parts, with grouping
expressions and ordering keys each on their own, and the keys apart from their directions.

Outlines are built along the calls of the renderer (`outline`, `itemOutline`), and their tokens are
those of the renderer, errors included (`query_fromItem_eq_outline`, `statement_eq_outline`). So
what a statement has in its GROUP BY and ORDER BY clauses, in all its SELECT blocks, is the items of
its outline.
-/

namespace QueryTree

/-- What a statement is made of. -/
inductive Outline where
  | select (columns : Sql) (source : Outline) (filters groups : List Sql)
      (keys : List (Sql × Direction)) (limit : List Sql)
  /-- Two queries with an operator between them, or two from-items with a join condition. -/
  | between (left : Outline) (operator : String) (right : Outline) (condition : Sql)
  | table (item : Sql)
  /-- A query in parentheses, and its alias if it has one. -/
  | enclosed (query : Outline) (behind : Sql)

namespace Outline

open Sql

/-- A list of items under a keyword; without items there is no clause. -/
def clause (keyword : String) (items : List Sql) : List Sql :=
  if items.isEmpty then [] else [word keyword ++ separated ", " items]

/-- An ordering key with its direction. -/
def directed (key : Sql × Direction) : Sql :=
  match key.2 with
  | .ascending => key.1
  | .descending => key.1 ++ word " DESC"

/-- The tokens of a statement. -/
def sql : Outline → Sql
  | select columns source filters groups keys limit =>
    separated " " (columns :: (word "FROM " ++ source.sql) :: filters ++
      clause "GROUP BY " groups ++ clause "ORDER BY " (keys.map directed) ++ limit)
  | between left operator right condition =>
    left.sql ++ word operator ++ right.sql ++ condition
  | table item => item
  | enclosed query behind => parenthesized query.sql ++ behind

/-- What stands in the GROUP BY and ORDER BY clauses, directions apart, from the innermost block
out. -/
def items : Outline → List Sql
  | select _ source _ groups keys _ => source.items ++ groups ++ keys.map (·.1)
  | between left _ right _ => left.items ++ right.items
  | table _ => []
  | enclosed query _ => query.items

end Outline

namespace Sql

variable (d : Dialect)

/-! ### Clauses -/

/-- The scalars of a GROUP BY clause. -/
def groupItems : Option Projection → Except QueryError (List Sql)
  | none => .ok []
  | some p => scalars d none p.groupBy

/-- An ordering key and its direction. -/
def orderItem (bare : Option String) (k : OrderKey) : Except QueryError (Sql × Direction) := do
  pure (← scalar d bare k.expr, k.direction)

/-- The keys of an ORDER BY clause, those outside the projection first. -/
def orderItems (b : Block) : Except QueryError (List (Sql × Direction)) := do
  let outer ← b.outerOrder.mapM (orderItem d (b.projection.map (·.qualifier)))
  let inner ← b.innerOrder.mapM (orderItem d none)
  pure (outer ++ inner)

/-- The outline of a SELECT over that of a from-item. -/
def selectOutline (b : Block) (source : Except QueryError Outline) : Except QueryError Outline := do
  let columns ← selectClause d b.projection
  let source ← source
  let filters ← whereClause d b.filters
  let groups ← groupItems d b.projection
  let keys ← orderItems d b
  let limit ← limitClause d b
  pure (.select columns source filters groups keys limit)

variable {d}

/-- The GROUP BY clause is its items under the keyword. -/
theorem groupClause_eq (p : Option Projection) :
    groupClause d p = Outline.clause "GROUP BY " <$> groupItems d p := by
  cases p with
  | none => rfl
  | some p =>
    rw [groupClause, groupItems, scalars_eq]
    by_cases hempty : p.groupBy = []
    · rw [hempty]
      rfl
    · rw [if_neg (by simpa using hempty)]
      cases hitems : p.groupBy.mapM (scalar d none) with
      | error => rfl
      | ok items =>
        have hne : items ≠ [] := by
          rw [← List.length_pos_iff_ne_nil, Attempt.length_eq_of_mapM_eq_ok hitems]
          exact List.length_pos_iff_ne_nil.2 hempty
        have hclause : Outline.clause "GROUP BY " items =
            [word "GROUP BY " ++ separated ", " items] := if_neg (by simpa using hne)
        exact congrArg Except.ok hclause.symm

/-- An ordering key is written from its scalar and its direction. -/
theorem orderKey_eq (bare : Option String) (k : OrderKey) :
    orderKey d bare k = Outline.directed <$> orderItem d bare k := by
  rw [orderKey, orderItem, map_bind]
  cases k.direction <;> rfl

/-- A walk along keys writes each with its direction. -/
theorem mapM_orderKey (bare : Option String) (keys : List OrderKey) :
    keys.mapM (orderKey d bare) = List.map Outline.directed <$> keys.mapM (orderItem d bare) := by
  induction keys with
  | nil => rfl
  | cons k keys ih =>
    rw [List.mapM_cons, List.mapM_cons, ih, orderKey_eq]
    simp only [map_bind, bind_map_left, map_pure, List.map_cons]

/-- The ORDER BY clause is its items under the keyword. -/
theorem orderClause_eq (b : Block) :
    orderClause d b =
      (fun keys => Outline.clause "ORDER BY " (keys.map Outline.directed)) <$> orderItems d b := by
  rw [orderClause, orderItems, mapM_orderKey, mapM_orderKey]
  simp only [map_bind, bind_map_left, map_pure, List.map_append]
  rfl

/-- A SELECT is the text of its outline. -/
theorem select_eq_outline (b : Block) (source : Except QueryError Outline) :
    select d b (Outline.sql <$> source) = Outline.sql <$> selectOutline d b source := by
  rw [select, selectOutline, groupClause_eq, orderClause_eq]
  simp only [map_bind, bind_map_left, map_pure]
  rfl

/-! ### Queries -/

/-- The outline of a branch of a set operation, in parentheses where it needs them. -/
def branchOutline (e : Expr) (o : Outline) : Outline :=
  if needsParentheses e then .enclosed o [] else o

theorem sql_branchOutline (e : Expr) (o : Outline) :
    (branchOutline e o).sql = branch e o.sql := by
  unfold branchOutline branch
  split
  · exact List.append_nil _
  · rfl

set_option linter.unusedVariables false in
mutual

/-- The outline of a query. -/
def outline (d : Dialect) (e : Expr) : Except QueryError Outline :=
  match h : (Block.split e).setParts? with
  | some s => do
    let l ← outline d s.left
    let r ← outline d s.right
    pure (.between (branchOutline s.left l) (setText s.op s.all) (branchOutline s.right r) [])
  | none => selectOutline d (Block.split e) (itemOutline d (Block.split e).source)
termination_by (sizeOf e, queryRank e)
decreasing_by
  · exact .left _ _ (Nat.lt_of_lt_of_le (Block.sizeOf_setParts_lt h).1
      (Block.sizeOf_source_split_le e))
  · exact .left _ _ (Nat.lt_of_lt_of_le (Block.sizeOf_setParts_lt h).2
      (Block.sizeOf_source_split_le e))
  · exact source_before_query h

/-- The outline of what stands after FROM. -/
def itemOutline (d : Dialect) (e : Expr) : Except QueryError Outline :=
  match e with
  | .scan source qualifier _ => Outline.table <$> scanItem d source qualifier
  | .join kind left right on => do
    let l ← itemOutline d left
    let r ← itemOutline d right
    let condition ← joinCondition d kind on
    pure (.between l (" " ++ joinText kind ++ " ") r condition)
  | e =>
    match h : subqueryAlias? e with
    | none => .error (.unsupported e.kind "subquery has no single alias")
    | some qualifier => do
      let o ← outline d e
      pure (.enclosed o (word (" AS " ++ qualifier)))
termination_by (sizeOf e, 1)
decreasing_by
  · exact .left _ _ (by simp only [Expr.join.sizeOf_spec]; omega)
  · exact .left _ _ (by simp only [Expr.join.sizeOf_spec]; omega)
  · simp only [queryRank, isDerived_of_subqueryAlias? h, if_true]
    exact .right _ (by decide)

end

/-- The outline of a set operation is made of those of its branches. -/
theorem outline_of_setParts {e : Expr} {s : Block.SetParts}
    (h : (Block.split e).setParts? = some s) :
    outline d e = (do
      let l ← outline d s.left
      let r ← outline d s.right
      pure (.between (branchOutline s.left l) (setText s.op s.all)
        (branchOutline s.right r) [])) := by
  rw [outline]
  split
  next s' hs' =>
    obtain rfl : s' = s := Option.some.inj (hs'.symm.trans h)
    rfl
  next hnone => cases hnone.symm.trans h

/-- The outline of any other query is that of its block. -/
theorem outline_of_block {e : Expr} (h : (Block.split e).setParts? = none) :
    outline d e = selectOutline d (Block.split e) (itemOutline d (Block.split e).source) := by
  rw [outline]
  split
  next s hs => cases hs.symm.trans h
  next => rfl

theorem itemOutline_scan (source : Expr) (qualifier : String) (t : LogicalType) :
    itemOutline d (.scan source qualifier t) = Outline.table <$> scanItem d source qualifier := by
  rw [itemOutline]

/-- The outline of a query over one table. -/
theorem outline_over_table {e source : Expr} {qualifier : String} {t : LogicalType}
    (hparts : (Block.split e).setParts? = none)
    (hsource : (Block.split e).source = .scan source qualifier t) :
    outline d e =
      selectOutline d (Block.split e) (Outline.table <$> scanItem d source qualifier) := by
  rw [outline_of_block hparts, hsource, itemOutline_scan]

theorem itemOutline_join (kind : JoinKind) (left right : Expr) (on : Option Expr) :
    itemOutline d (.join kind left right on) = (do
      let l ← itemOutline d left
      let r ← itemOutline d right
      let condition ← joinCondition d kind on
      pure (.between l (" " ++ joinText kind ++ " ") r condition)) := by
  rw [itemOutline]

section Derived

variable {e : Expr} (hscan : ∀ source qualifier t, e = .scan source qualifier t → False)
  (hjoin : ∀ kind left right on, e = .join kind left right on → False)

include hscan hjoin

theorem itemOutline_of_noAlias (h : subqueryAlias? e = none) :
    itemOutline d e = .error (.unsupported e.kind "subquery has no single alias") := by
  rw [itemOutline]
  · split
    next => rfl
    next qualifier hq => cases hq.symm.trans h
  · exact hscan
  · exact hjoin

theorem itemOutline_of_alias {qualifier : String} (h : subqueryAlias? e = some qualifier) :
    itemOutline d e = (do
      let o ← outline d e
      pure (.enclosed o (word (" AS " ++ qualifier)))) := by
  rw [itemOutline]
  · split
    next hnone => cases hnone.symm.trans h
    next q hq =>
      obtain rfl : q = qualifier := Option.some.inj (hq.symm.trans h)
      rfl
  · exact hscan
  · exact hjoin

end Derived

/-- The tokens of queries and from-items are those of their outlines. The outline is computed along
the same calls, so there is one equation for each form of query and from-item. -/
theorem query_fromItem_eq_outline (d : Dialect) :
    (∀ e, query d e = Outline.sql <$> outline d e) ∧
      ∀ e, fromItem d e = Outline.sql <$> itemOutline d e := by
  -- the induction follows the calls of the two functions on each other
  apply query.mutual_induct
  case case1 =>
    intro e s hs ihl ihr
    rw [query_of_setParts hs, outline_of_setParts hs, ihl, ihr]
    simp only [map_bind, bind_map_left, map_pure, Outline.sql, sql_branchOutline, List.append_nil]
  case case2 =>
    intro e hs ih
    rw [query_of_block hs, outline_of_block hs, ih, select_eq_outline]
  case case3 =>
    intro source qualifier t
    rw [fromItem_scan, itemOutline_scan]
    cases scanItem d source qualifier <;> rfl
  case case4 =>
    intro kind left right on ihl ihr
    rw [fromItem_join, itemOutline_join, ihl, ihr]
    simp only [map_bind, bind_map_left, map_pure, Outline.sql]
  case case5 =>
    intro e hscan hjoin halias
    rw [fromItem_of_noAlias hscan hjoin halias, itemOutline_of_noAlias hscan hjoin halias]
    rfl
  case case6 =>
    intro e hscan hjoin qualifier halias ih
    rw [fromItem_of_alias hscan hjoin halias, itemOutline_of_alias hscan hjoin halias, ih]
    simp only [map_bind, bind_map_left, map_pure, Outline.sql]

/-- The outline of a statement. -/
def statementOutline (d : Dialect) : Expr → Except QueryError Outline
  | .lambda _ body => statementOutline d body
  | e =>
    if e.isRelational then outline d e
    else .error (.unsupported e.kind "a statement must produce rows")

/-- A statement is the text of its outline, so what is said about the items of outlines is said
about the clauses of statements. -/
theorem statement_eq_outline (d : Dialect) (e : Expr) :
    statement d e = Outline.sql <$> statementOutline d e := by
  induction e using Expr.treeInduction with
  | lambda ps body ih => exact ih
  | scan | filter | project | order | limit | join | setOp =>
    exact (query_fromItem_eq_outline d).1 _
  | _ => rfl

end Sql

end QueryTree
