import QueryTree.Proofs.OrderPlacement
import QueryTree.Proofs.Outline
import QueryTree.Proofs.ReadingOrder

/-!
# Sort keys

What a statement groups and orders its rows by comes from the grouping and ordering nodes of its
tree. Two facts are shown of these keys.

A block renders the keys of its own nodes, and the blocks of a statement are those of its tree. So
the items in the GROUP BY and ORDER BY clauses of a statement are the keys of the tree, one for
each, and written by the renderer of scalars (`items_of_statementOutline`).

A pipeline rewrites the tree before it is rendered. Ordering normalization moves keys and merges
them, it turns them into references to columns, and it makes grouping expressions of the columns of
a DISTINCT projection; it writes no others (`Lifts.traced`). Lowering changes each key by itself
(`keyExprs_lower`), and dead columns are no keys (`keyExprs_prune`). So every key of a prepared tree
is a lowered key of the original tree, a lowered column of one of its DISTINCT projections, or a
reference to a column (`keyExprs_of_prepare`).
-/

namespace QueryTree

open Attempt

/-- An expression by which rows are grouped or ordered, and the alias that it may leave out. -/
structure SortKey where
  bare : Option String
  expr : Expr

/-- The item is the key as it is rendered. -/
def SortKey.Renders (d : Dialect) (k : SortKey) (item : Sql) : Prop :=
  Sql.scalar d k.bare k.expr = .ok item

namespace Block

/-- The keys of a block: grouping expressions, and ordering keys above and below the projection.
Only those above it see the columns of the projection. -/
def sortKeys (b : Block) : List SortKey :=
  (b.projection.toList.flatMap (·.groupBy)).map (⟨none, ·⟩) ++
    (b.outerOrder.map fun k => ⟨b.projection.map (·.qualifier), k.expr⟩) ++
    b.innerOrder.map fun k => ⟨none, k.expr⟩

theorem sortKeys_of_isBare {b : Block} (h : b.isBare = true) : b.sortKeys = [] := by
  simp only [isBare, Bool.and_eq_true, Option.isNone_iff_eq_none, List.isEmpty_iff] at h
  obtain ⟨⟨⟨⟨⟨_, houter⟩, hprojection⟩, _⟩, hinner⟩, _⟩ := h
  rw [sortKeys, hprojection, houter, hinner]
  rfl

end Block

namespace Expr

/-! ### The keys of a tree -/

set_option linter.unusedVariables false in
/-- The keys of all blocks of a tree, from the innermost out. -/
def sortKeys (e : Expr) : List SortKey :=
  match e with
  | .join _ left right _ => sortKeys left ++ sortKeys right
  | .setOp _ _ left right _ => sortKeys left ++ sortKeys right
  | .lambda _ body => sortKeys body
  | e =>
    if h : Block.isClause e = true then
      sortKeys (Block.split e).source ++ (Block.split e).sortKeys
    else []
termination_by sizeOf e
decreasing_by
  · simp only [Expr.join.sizeOf_spec]; omega
  · simp only [Expr.join.sizeOf_spec]; omega
  · simp only [Expr.setOp.sizeOf_spec]; omega
  · simp only [Expr.setOp.sizeOf_spec]; omega
  · simp only [Expr.lambda.sizeOf_spec]; omega
  · exact Block.sizeOf_source_split_lt h

/-- The keys of a join are those of its sides. -/
theorem sortKeys_join (kind : JoinKind) (left right : Expr) (on : Option Expr) :
    (join kind left right on).sortKeys = left.sortKeys ++ right.sortKeys := by
  rw [sortKeys]

/-- The keys of a set operation are those of its branches. -/
theorem sortKeys_setOp (op : SetOperator) (all : Bool) (left right : Expr) (q : String) :
    (setOp op all left right q).sortKeys = left.sortKeys ++ right.sortKeys := by
  rw [sortKeys]

/-- The keys of a query with parameters are those of its body. -/
theorem sortKeys_lambda (ps : List Parameter) (body : Expr) :
    (lambda ps body).sortKeys = body.sortKeys := by
  rw [sortKeys]

/-- A scan has no keys. -/
theorem sortKeys_scan (source : Expr) (q : String) (t : LogicalType) :
    (scan source q t).sortKeys = [] := by
  rw [sortKeys.eq_def]
  exact dif_neg Bool.false_ne_true

/-- The keys of a tree are those of its from-item and of its outermost block. -/
theorem sortKeys_eq (e : Expr) :
    e.sortKeys = (Block.split e).source.sortKeys ++ (Block.split e).sortKeys := by
  by_cases h : Block.isClause e = true
  · rw [sortKeys.eq_def]
    cases e with
    | limit | order | project | filter => exact dif_pos h
    | _ => cases h
  · rw [Block.split_of_not_isClause (by simpa using h)]
    exact (List.append_nil _).symm

/-- The keys of a block that is a set operation are those of its branches. -/
theorem sortKeys_of_setParts {e : Expr} {s : Block.SetParts}
    (h : (Block.split e).setParts? = some s) :
    e.sortKeys = s.left.sortKeys ++ s.right.sortKeys := by
  obtain ⟨hbare, q, hsource⟩ := Block.source_of_setParts h
  rw [sortKeys_eq, Block.sortKeys_of_isBare hbare, hsource, sortKeys_setOp, List.append_nil]

end Expr

namespace Sql

variable {d : Dialect}

/-! ### Items -/

/-- Scalars are rendered one by one. -/
theorem renders_of_mapM {bare : Option String} {es : List Expr} {items : List Sql}
    (h : es.mapM (scalar d bare) = .ok items) :
    List.Forall₂ (SortKey.Renders d) (es.map (⟨bare, ·⟩)) items :=
  List.forall₂_map_left_iff.2 (mapM_eq_ok_iff.1 h)

/-- Ordering keys are rendered one by one. -/
theorem renders_of_orderItems {bare : Option String} {keys : List OrderKey}
    {items : List (Sql × Direction)} (h : keys.mapM (orderItem d bare) = .ok items) :
    List.Forall₂ (SortKey.Renders d) (keys.map fun k => ⟨bare, k.expr⟩) (items.map (·.1)) := by
  rw [List.forall₂_map_left_iff, List.forall₂_map_right_iff]
  refine (mapM_eq_ok_iff.1 h).imp fun k item hitem => ?_
  obtain ⟨rendered, hrendered, hpure⟩ := bind_eq_ok_iff.1 hitem
  obtain rfl := pure_eq_ok_iff.1 hpure
  exact hrendered

/-- The items of a SELECT are those of its from-item and the keys of its block. The columns, the
conditions and the limit are rendered too, but they have no items. -/
theorem items_of_selectOutline {b : Block} {source : Except QueryError Outline} {o : Outline}
    {keys : List SortKey}
    (hsource : ∀ s, source = .ok s → List.Forall₂ (SortKey.Renders d) keys s.items)
    (h : selectOutline d b source = .ok o) :
    List.Forall₂ (SortKey.Renders d) (keys ++ b.sortKeys) o.items := by
  obtain ⟨columns, _, h⟩ := bind_eq_ok_iff.1 h
  obtain ⟨s, hs, h⟩ := bind_eq_ok_iff.1 h
  obtain ⟨filters, _, h⟩ := bind_eq_ok_iff.1 h
  obtain ⟨groups, hgroups, h⟩ := bind_eq_ok_iff.1 h
  obtain ⟨ordering, hordering, h⟩ := bind_eq_ok_iff.1 h
  obtain ⟨limit, _, h⟩ := bind_eq_ok_iff.1 h
  obtain rfl := pure_eq_ok_iff.1 h
  obtain ⟨outer, houter, hordering⟩ := bind_eq_ok_iff.1 hordering
  obtain ⟨inner, hinner, hordering⟩ := bind_eq_ok_iff.1 hordering
  obtain rfl := pure_eq_ok_iff.1 hordering
  have hgrouped : List.Forall₂ (SortKey.Renders d)
      ((b.projection.toList.flatMap (·.groupBy)).map (⟨none, ·⟩)) groups := by
    cases hprojection : b.projection with
    | none =>
      rw [hprojection] at hgroups
      obtain rfl := Except.ok.inj hgroups
      exact .nil
    | some p =>
      rw [hprojection, groupItems, scalars_eq] at hgroups
      have hlist : (some p).toList.flatMap (·.groupBy) = p.groupBy := List.append_nil _
      rw [hlist]
      exact renders_of_mapM hgroups
  have hitems : (Outline.select columns s filters groups (outer ++ inner) limit).items =
      s.items ++ (groups ++ outer.map (·.1) ++ inner.map (·.1)) := by
    simp [Outline.items]
  rw [hitems, Block.sortKeys]
  exact List.rel_append (hsource s hs)
    (List.rel_append (List.rel_append hgrouped (renders_of_orderItems houter))
      (renders_of_orderItems hinner))

/-- The items of queries and from-items are the keys of their trees. The induction follows the calls
of the two functions on each other, as that of `query_fromItem_eq_outline` does. -/
theorem items_of_outline (d : Dialect) :
    (∀ e, ∀ o, outline d e = .ok o → List.Forall₂ (SortKey.Renders d) e.sortKeys o.items) ∧
      ∀ e, ∀ o, itemOutline d e = .ok o → List.Forall₂ (SortKey.Renders d) e.sortKeys o.items := by
  apply query.mutual_induct
  case case1 =>
    intro e s hs ihl ihr o h
    rw [outline_of_setParts hs] at h
    obtain ⟨l, hl, h⟩ := bind_eq_ok_iff.1 h
    obtain ⟨r, hr, h⟩ := bind_eq_ok_iff.1 h
    obtain rfl := pure_eq_ok_iff.1 h
    have hbranch (e : Expr) (o : Outline) : (branchOutline e o).items = o.items := by
      unfold branchOutline
      split <;> rfl
    rw [Expr.sortKeys_of_setParts hs, Outline.items, hbranch, hbranch]
    exact List.rel_append (ihl l hl) (ihr r hr)
  case case2 =>
    intro e hs ih o h
    rw [outline_of_block hs] at h
    rw [Expr.sortKeys_eq]
    exact items_of_selectOutline ih h
  case case3 =>
    intro source qualifier t o h
    rw [itemOutline_scan] at h
    rw [Expr.sortKeys_scan]
    cases hitem : scanItem d source qualifier with
    | error =>
      rw [hitem] at h
      cases h
    | ok item =>
      rw [hitem] at h
      obtain rfl := Except.ok.inj h
      exact .nil
  case case4 =>
    intro kind left right on ihl ihr o h
    rw [itemOutline_join] at h
    obtain ⟨l, hl, h⟩ := bind_eq_ok_iff.1 h
    obtain ⟨r, hr, h⟩ := bind_eq_ok_iff.1 h
    obtain ⟨condition, _, h⟩ := bind_eq_ok_iff.1 h
    obtain rfl := pure_eq_ok_iff.1 h
    rw [Expr.sortKeys_join]
    exact List.rel_append (ihl l hl) (ihr r hr)
  case case5 =>
    intro e hscan hjoin halias o h
    rw [itemOutline_of_noAlias hscan hjoin halias] at h
    cases h
  case case6 =>
    intro e hscan hjoin qualifier halias ih o h
    rw [itemOutline_of_alias hscan hjoin halias] at h
    obtain ⟨query, hquery, h⟩ := bind_eq_ok_iff.1 h
    obtain rfl := pure_eq_ok_iff.1 h
    exact ih query hquery

/-- The items of a statement are its keys, one by one. -/
theorem items_of_statementOutline {e : Expr} {o : Outline} (h : statementOutline d e = .ok o) :
    List.Forall₂ (SortKey.Renders d) e.sortKeys o.items := by
  induction e using Expr.treeInduction with
  | lambda ps body ih =>
    rw [Expr.sortKeys_lambda]
    exact ih h
  | scan | filter | project | order | limit | join | setOp => exact (items_of_outline d).1 _ o h
  | _ => cases h

end Sql

/-! ### Where keys come from -/

namespace Expr

/-- The expressions of the grouping and ordering nodes of a tree. -/
def keyExprs : Expr → List Expr
  | order input keys => keyExprs input ++ keys.map (·.expr)
  | project _ input _ _ groupBy => keyExprs input ++ groupBy
  | filter input _ | limit input _ _ => keyExprs input
  | join _ left right _ | setOp _ _ left right _ => keyExprs left ++ keyExprs right
  | lambda _ body => keyExprs body
  | _ => []

/-- The expressions of which keys can be made: those of the grouping and ordering nodes, and the
columns of DISTINCT projections. -/
def keySources : Expr → List Expr
  | order input keys => keySources input ++ keys.map (·.expr)
  | project _ input columns distinct groupBy =>
    keySources input ++ (groupBy ++ if distinct then columns.map (·.expr) else [])
  | filter input _ | limit input _ _ => keySources input
  | join _ left right _ | setOp _ _ left right _ => keySources left ++ keySources right
  | lambda _ body => keySources body
  | _ => []

end Expr

namespace Block

/-- The keys of a block are its groups and its orderings. -/
theorem mem_sortKeys {b : Block} {x : Expr} :
    x ∈ b.sortKeys.map (·.expr) ↔ (∃ p ∈ b.projection, x ∈ p.groupBy) ∨
      x ∈ b.outerOrder.map (·.expr) ∨ x ∈ b.innerOrder.map (·.expr) := by
  simp [sortKeys, Function.comp_def]

/-- Taking clauses off a tree adds no keys to those of the block and the tree. -/
theorem mem_keyExprs_of_absorb {stage : Nat} {b : Block} {e x : Expr}
    (h : x ∈ (absorb stage b e).sortKeys.map (·.expr) ∨ x ∈ (absorb stage b e).source.keyExprs) :
    x ∈ b.sortKeys.map (·.expr) ∨ x ∈ e.keyExprs := by
  -- a clause that is taken off puts its keys into the block, and what stops the walk keeps its own
  fun_induction absorb stage b e <;>
    simp only [mem_sortKeys, Expr.keyExprs, List.mem_append] at * <;> grind

/-- Splitting a tree into blocks adds no keys. -/
theorem mem_keyExprs_of_split {e x : Expr}
    (h : x ∈ (split e).sortKeys.map (·.expr) ∨ x ∈ (split e).source.keyExprs) : x ∈ e.keyExprs := by
  rcases mem_keyExprs_of_absorb h with hnone | hmem
  · cases hnone
  · exact hmem

end Block

namespace Expr

/-- The keys of the blocks of a tree are those of its nodes. -/
theorem mem_keyExprs_of_mem_sortKeys {e : Expr} {k : SortKey} (h : k ∈ e.sortKeys) :
    k.expr ∈ e.keyExprs := by
  fun_induction sortKeys e with
  | case1 kind left right on ihl ihr =>
    exact List.mem_append.2 ((List.mem_append.1 h).imp ihl ihr)
  | case2 op all left right q ihl ihr =>
    exact List.mem_append.2 ((List.mem_append.1 h).imp ihl ihr)
  | case3 ps body ih => exact ih h
  | case4 e hjoin hset hlambda hclause ih =>
    refine Block.mem_keyExprs_of_split ?_
    rcases List.mem_append.1 h with hsource | hblock
    · exact .inr (ih hsource)
    · exact .inl (List.mem_map_of_mem hblock)
  | case5 => cases h

/-! ### Lowering and pruning -/

/-- The tree produces rows, and so does every tree that it takes rows from. -/
def RowsOnly : Expr → Prop
  | scan .. => True
  | filter input _ | order input _ | limit input _ _ | project _ input _ _ _ => RowsOnly input
  | join _ left right _ | setOp _ _ left right _ => RowsOnly left ∧ RowsOnly right
  | _ => False

/-- Lowering a filter leaves the keys below it. -/
theorem keyExprs_lowerFilter (input predicate : Expr) :
    (lowerFilter input predicate).keyExprs = input.keyExprs := by
  unfold lowerFilter
  split
  · rfl
  · split <;> rfl

/-- Lowering an ordering leaves its keys. -/
theorem keyExprs_lowerNode_order (input : Expr) (keys : List OrderKey) :
    (order input keys).lowerNode.keyExprs = input.keyExprs ++ keys.map (·.expr) := by
  cases keys with
  | nil => exact (List.append_nil _).symm
  | cons => rfl

/-- Lowering a tree lowers each of its keys. By induction on the tree. Filters may merge and empty
orderings disappear, neither of which has keys. -/
theorem keyExprs_lower {e : Expr} (h : e.RowsOnly) : e.lower.keyExprs = e.keyExprs.map lower := by
  induction e using treeInduction with
  | scan source q t => rw [lower_of_isRelational rfl]; rfl
  | filter input p ih _ =>
    rw [lower_of_isRelational rfl]
    exact (keyExprs_lowerFilter _ _).trans (ih h)
  | order input keys ih _ =>
    rw [lower_of_isRelational rfl, mapChildren_order, keyExprs_lowerNode_order, ih h, keyExprs,
      List.map_append, List.map_map, List.map_map]
    rfl
  | limit input take skip ih _ _ =>
    rw [lower_of_isRelational rfl]
    exact ih h
  | project q input cs d gs ih _ _ =>
    rw [lower_of_isRelational rfl, mapChildren_project, keyExprs, List.map_append, ← ih h]
    rfl
  | join kind left right on ihl ihr _ =>
    rw [lower_of_isRelational rfl, keyExprs, List.map_append, ← ihl h.1, ← ihr h.2]
    rfl
  | setOp op all left right q ihl ihr =>
    rw [lower_of_isRelational rfl, keyExprs, List.map_append, ← ihl h.1, ← ihr h.2]
    rfl
  | _ => cases h

/-- Dropping columns leaves the keys. -/
theorem keyExprs_prune (needed : List ColumnRef) (output : Bool) (e : Expr) :
    (e.prune needed output).keyExprs = e.keyExprs := by
  induction e using treeInduction generalizing needed output with
  | project q input cs d gs ih _ _ => exact congrArg (· ++ gs) (ih _ _)
  | filter input p ih _ => exact ih _ _
  | order input keys ih _ => exact congrArg (· ++ keys.map (·.expr)) (ih _ _)
  | limit input take skip ih _ _ => exact ih _ _
  | join kind left right on ihl ihr _ => exact congrArg₂ (· ++ ·) (ihl _ _) (ihr _ _)
  | setOp op all left right q ihl ihr => exact congrArg₂ (· ++ ·) (ihl _ _) (ihr _ _)
  | _ => rfl

end Expr

/-! ### Ordering normalization -/

namespace OrderLifting

open QueryTree.Expr

/-- The expression is one of the sources, or a reference to a column. -/
def Traced (sources : List Expr) (x : Expr) : Prop :=
  x ∈ sources ∨ ∃ q name t, x = .column q name t

/-- What comes from fewer sources comes from more. -/
theorem Traced.mono {sources sources' : List Expr} {x : Expr} (h : Traced sources x)
    (hsub : sources ⊆ sources') : Traced sources' x :=
  h.imp_left fun hx => hsub hx

section Ordered

variable {e : Expr} {ks : List OrderKey}

theorem rowsOnly_orderedBy (h : e.RowsOnly) (ks : List OrderKey) : (orderedBy ks e).RowsOnly := by
  unfold orderedBy
  split <;> exact h

theorem rowsOnly_orderedOnce (h : e.RowsOnly) (ks : List OrderKey) :
    (orderedOnce ks e).RowsOnly := by
  unfold orderedOnce
  split
  · exact h
  · exact rowsOnly_orderedBy h ks

variable {sources : List Expr} (htree : ∀ x ∈ e.keyExprs, Traced sources x)
  (hkeys : ∀ k ∈ ks, Traced sources k.expr)

include htree hkeys

/-- An ordering by traced keys has traced keys. -/
theorem traced_orderedBy : ∀ x ∈ (orderedBy ks e).keyExprs, Traced sources x := by
  unfold orderedBy
  split
  · exact htree
  · exact List.forall_mem_append.2 ⟨htree, List.forall_mem_map.2 hkeys⟩

/-- So has one that may be left out. -/
theorem traced_orderedOnce : ∀ x ∈ (orderedOnce ks e).keyExprs, Traced sources x := by
  unfold orderedOnce
  split
  · exact htree
  · exact traced_orderedBy htree hkeys

end Ordered

/-- Merged keys come from where the keys came from. -/
theorem traced_mergeKeys {outer inner : List OrderKey} {sources : List Expr}
    (houter : ∀ k ∈ outer, Traced sources k.expr) (hinner : ∀ k ∈ inner, Traced sources k.expr) :
    ∀ k ∈ mergeKeys outer inner, Traced sources k.expr :=
  fun k hk => (mem_of_mem_mergeKeys hk).elim (houter k) (hinner k)

/-- Keys that have been exposed are references. -/
theorem traced_exposeKeys {q : String} {isShown : Expr → Expr → Bool} {shown : Expr → Expr}
    {cs : List Column} {ks : List OrderKey} (sources : List Expr) :
    ∀ k ∈ (exposeKeys q isShown shown cs ks).2, Traced sources k.expr := by
  intro k hk
  obtain ⟨_, _, _, c, _, hexpr, _⟩ :=
    exists_rel_of_mem_right (exposeKeys_keys q isShown shown cs ks) hk
  exact .inr ⟨_, _, _, hexpr⟩

section Lifts

variable {flag : Bool} {mode : Mode} {e e' : Expr} {ks : List OrderKey}

/-- Lifting yields a tree of relations. -/
theorem Lifts.rowsOnly (h : Lifts flag mode e e' ks) : e'.RowsOnly := by
  induction h with
  | scan source q t => trivial
  | filter p _ ih => exact ih
  | order outer _ ih => exact ih
  | limit take skip _ ih => exact rowsOnly_orderedBy ih _
  | dropped q d _ _ ih => exact ih
  | distinct _ _ hexpose ih =>
    obtain rfl := congrArg Prod.fst hexpose
    exact ih
  | placed q _ _ ih => exact rowsOnly_orderedOnce ih _
  | exposed _ _ _ ih => exact ih
  | join kind on _ _ ihl ihr => exact ⟨ihl, ihr⟩
  | setOp op all q _ _ ihl ihr => exact ⟨ihl, ihr⟩

/-- A DISTINCT projection becomes one that groups by its columns, or it stays one without groups. -/
theorem mem_keyExprs_exposeDistinct {q : String} {input x : Expr} {cs : List Column}
    (h : x ∈ (exposeDistinct flag q input cs ks).1.keyExprs) :
    x ∈ input.keyExprs ∨ x ∈ cs.map (·.expr) := by
  have hkeys : (exposeDistinct flag q input cs ks).1.keyExprs = input.keyExprs ++
      if (ks.any fun k => !cs.any fun c => c.expr == k.expr) && flag then cs.map (·.expr)
      else [] := rfl
  rw [hkeys, List.mem_append] at h
  refine h.imp_right fun hgroup => ?_
  split at hgroup
  · exact hgroup
  · cases hgroup

/-- What lifting leaves in the tree and what it brings up are keys of the tree, columns of its
DISTINCT projections, and references. -/
theorem Lifts.traced (h : Lifts flag mode e e' ks) :
    (∀ x ∈ e'.keyExprs, Traced e.keySources x) ∧ ∀ k ∈ ks, Traced e.keySources k.expr := by
  have hnone {sources : List Expr} : ∀ k ∈ ([] : List OrderKey), Traced sources k.expr :=
    fun k hk => by cases hk
  induction h with
  | scan source q t => exact ⟨(fun x hx => by cases hx), hnone⟩
  | filter p _ ih => exact ih
  | order outer _ ih =>
    refine ⟨fun x hx => (ih.1 x hx).mono (List.subset_append_left _ _), ?_⟩
    refine traced_mergeKeys (fun k hk => .inl ?_) fun k hk => (ih.2 k hk).mono ?_
    · exact List.mem_append_right _ (List.mem_map_of_mem hk)
    · exact List.subset_append_left _ _
  | limit take skip _ ih => exact ⟨traced_orderedBy ih.1 ih.2, ih.2⟩
  | dropped q d _ _ ih =>
    refine ⟨List.forall_mem_append.2 ⟨fun x hx => ?_, fun x hx => .inl ?_⟩, hnone⟩
    · exact (ih.1 x hx).mono (List.subset_append_left _ _)
    · exact List.mem_append_right _ (List.mem_append_left _ hx)
  | distinct _ _ hexpose ih =>
    obtain rfl := congrArg Prod.fst hexpose
    obtain rfl := congrArg Prod.snd hexpose
    refine ⟨fun x hx => ?_, traced_exposeKeys _⟩
    rcases mem_keyExprs_exposeDistinct hx with hx | hx
    · exact (ih.1 x hx).mono (List.subset_append_left _ _)
    · exact .inl (List.mem_append_right _ hx)
  | placed q _ _ ih =>
    refine ⟨List.forall_mem_append.2 ⟨fun x hx => ?_, fun x hx => by cases hx⟩, hnone⟩
    exact (traced_orderedOnce ih.1 ih.2 x hx).mono (List.subset_append_left _ _)
  | exposed _ _ hexpose ih =>
    obtain rfl := congrArg Prod.snd hexpose
    refine ⟨List.forall_mem_append.2 ⟨fun x hx => ?_, fun x hx => by cases hx⟩, traced_exposeKeys _⟩
    exact (ih.1 x hx).mono (List.subset_append_left _ _)
  | join kind on _ _ ihl ihr =>
    refine ⟨List.forall_mem_append.2 ⟨fun x hx => ?_, fun x hx => ?_⟩,
      traced_mergeKeys (fun k hk => ?_) fun k hk => ?_⟩
    · exact (ihl.1 x hx).mono (List.subset_append_left _ _)
    · exact (ihr.1 x hx).mono (List.subset_append_right _ _)
    · exact (ihl.2 k hk).mono (List.subset_append_left _ _)
    · exact (ihr.2 k hk).mono (List.subset_append_right _ _)
  | setOp op all q _ _ ihl ihr =>
    refine ⟨List.forall_mem_append.2 ⟨fun x hx => ?_, fun x hx => ?_⟩, hnone⟩
    · exact (ihl.1 x hx).mono (List.subset_append_left _ _)
    · exact (ihr.1 x hx).mono (List.subset_append_right _ _)

/-- Each key after normalization is one from before, a column of a DISTINCT projection, or a
reference. -/
theorem normalize_traced (h : normalize flag e = .ok e') :
    e'.RowsOnly ∧ ∀ x ∈ e'.keyExprs, Traced e.keySources x := by
  obtain ⟨lifted, ks, hlifts, rfl⟩ := normalize_eq_ok_iff.1 h
  obtain ⟨htree, hkeys⟩ := hlifts.traced
  exact ⟨rowsOnly_orderedOnce hlifts.rowsOnly ks, traced_orderedOnce htree hkeys⟩

end Lifts

end OrderLifting

/-! ### The pipeline -/

namespace Pipeline

open OrderLifting

/-- Each key that is formatted is a lowered one from the tree, or a reference. The passes are taken
in turn: normalization keeps a key or makes a reference of it, lowering lowers it, and pruning
leaves the keys alone. -/
theorem traced_of_runAll (p : Pipeline) (hextra : p.extra = []) {e e' : Expr}
    (h : Pass.runAll p.passes e = .ok e') :
    ∀ x ∈ e'.keyExprs, (∃ y ∈ e.keySources, x = y.lower) ∨ ∃ q name t, x = .column q name t := by
  rw [passes, hextra] at h
  obtain ⟨ordered, hordered, h⟩ := bind_eq_ok_iff.1 h
  obtain ⟨lowered, hlowered, h⟩ := bind_eq_ok_iff.1 h
  obtain ⟨pruned, hpruned, h⟩ := bind_eq_ok_iff.1 h
  obtain rfl := pure_eq_ok_iff.1 h
  obtain rfl := Except.ok.inj hpruned
  have hlower : lowered = ordered.lower := by
    change lowerBody ordered = .ok lowered at hlowered
    unfold lowerBody at hlowered
    split at hlowered
    · cases hlowered
    · exact (Except.ok.inj hlowered).symm
  obtain ⟨hrows, htraced⟩ := normalize_traced hordered
  intro x hx
  rw [Expr.keyExprs_prune, hlower, Expr.keyExprs_lower hrows] at hx
  obtain ⟨y, hy, rfl⟩ := List.mem_map.1 hx
  rcases htraced y hy with hsource | ⟨q, name, t, rfl⟩
  · exact .inl ⟨y, hsource, rfl⟩
  · exact .inr ⟨q, name, t, rfl⟩

/-- A key of a tree that a pipeline without passes of plug-ins has prepared is a lowered key or
DISTINCT column of the original tree, or a reference to a column. -/
theorem keyExprs_of_prepare (p : Pipeline) (hextra : p.extra = []) {e e' : Expr}
    (h : p.prepare e = .ok e') :
    ∀ x ∈ e'.keyExprs, (∃ y ∈ e.keySources, x = y.lower) ∨ ∃ q name t, x = .column q name t := by
  by_cases hlambda : ∃ ps body, e = .lambda ps body
  · obtain ⟨ps, body, rfl⟩ := hlambda
    obtain ⟨body', hbody, h⟩ := bind_eq_ok_iff.1 h
    obtain rfl := pure_eq_ok_iff.1 h
    have htraced := traced_of_runAll p hextra hbody
    exact htraced
  · have hprepare : p.prepare e = Pass.runAll p.passes e := by
      cases e with
      | lambda ps body => exact absurd ⟨ps, body, rfl⟩ hlambda
      | _ => rfl
    exact traced_of_runAll p hextra (hprepare.symm.trans h)

end Pipeline

end QueryTree
