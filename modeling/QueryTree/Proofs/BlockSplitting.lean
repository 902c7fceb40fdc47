import Mathlib.Logic.Function.Iterate
import QueryTree.Proofs.ReadingOrder
import QueryTree.Proofs.Rendering

/-!
# Splitting a tree into blocks

A block is filled from the top of a tree down, each clause into a place that was still empty. So the
clauses of a block, put back around its from-item, are the tree again (`split_toExpr`). One kind of
node leaves no trace in a block: an ordering without keys. `Expr.DropsEmptyOrders` says of two trees
that they differ in such nodes alone.

The from-item is the tree itself or lies strictly below it (`source_split`), and a from-item that is
rendered as a query of its own is a clause or a set operation, of which a further block takes
something off. So a query renders smaller and smaller trees. `Sql.Renderer.oneRound` is one round of
the renderer's recursion, with the calls to itself left open; after a number of rounds that the
nodes of the tree bound, what the open calls would return makes no difference
(`Sql.Renderer.iterate_oneRound`).
-/

namespace QueryTree

namespace Expr

/-! ### Orderings without keys -/

/-- An ordering without keys, which orders nothing. -/
def isEmptyOrder : Expr → Bool
  | order _ [] => true
  | _ => false

/-- The second tree is the first without some of the orderings that have no keys. Only the inputs of
clauses are entered, from the root down. -/
inductive DropsEmptyOrders : Expr → Expr → Prop
  | refl (e : Expr) : DropsEmptyOrders e e
  | drop {input e' : Expr} (h : DropsEmptyOrders input e') : DropsEmptyOrders (.order input []) e'
  | limit {input input' : Expr} (take skip : Option Expr) (h : DropsEmptyOrders input input') :
    DropsEmptyOrders (.limit input take skip) (.limit input' take skip)
  | order {input input' : Expr} (keys : List OrderKey) (h : DropsEmptyOrders input input') :
    DropsEmptyOrders (.order input keys) (.order input' keys)
  | project {input input' : Expr} (q : String) (cs : List Column) (d : Bool) (gs : List Expr)
    (h : DropsEmptyOrders input input') :
    DropsEmptyOrders (.project q input cs d gs) (.project q input' cs d gs)
  | filter {input input' : Expr} (p : Expr) (h : DropsEmptyOrders input input') :
    DropsEmptyOrders (.filter input p) (.filter input' p)

namespace DropsEmptyOrders

variable {e e' e'' : Expr}

/-- Empty orderings may be dropped in several steps. -/
theorem trans (h : DropsEmptyOrders e e') (h' : DropsEmptyOrders e' e'') :
    DropsEmptyOrders e e'' := by
  induction h generalizing e'' with
  | refl e => exact h'
  | drop _ ih => exact .drop (ih h')
  | limit take skip h ih =>
    cases h' with
    | refl => exact .limit take skip h
    | limit _ _ h' => exact .limit take skip (ih h')
  | order keys h ih =>
    cases h' with
    | refl => exact .order keys h
    | drop h' => exact .drop (ih h')
    | order _ h' => exact .order keys (ih h')
  | project q cs d gs h ih =>
    cases h' with
    | refl => exact .project q cs d gs h
    | project _ _ _ _ h' => exact .project q cs d gs (ih h')
  | filter p h ih =>
    cases h' with
    | refl => exact .filter p h
    | filter _ h' => exact .filter p (ih h')

/-- Where every ordering has keys, there is nothing to leave out. -/
theorem eq (h : DropsEmptyOrders e e') (hkeys : e.any isEmptyOrder = false) : e' = e := by
  have hinput : ∀ {n input : Expr}, input ∈ n.children → n.any isEmptyOrder = false →
      input.any isEmptyOrder = false := by
    intro n input hmem hnone
    rw [any_eq, Bool.or_eq_false_iff, List.any_eq_false] at hnone
    exact Bool.eq_false_iff.2 (hnone.2 input hmem)
  induction h with
  | refl e => rfl
  | drop _ _ => cases (any_eq _ _).symm.trans hkeys
  | limit take skip _ ih => rw [ih (hinput List.mem_cons_self hkeys)]
  | order keys _ ih => rw [ih (hinput List.mem_cons_self hkeys)]
  | project q cs d gs _ ih => rw [ih (hinput List.mem_cons_self hkeys)]
  | filter p _ ih => rw [ih (hinput List.mem_cons_self hkeys)]

/-- Below a limit they may be dropped too. -/
theorem underLimit (h : DropsEmptyOrders e e') (w : Option Window) :
    DropsEmptyOrders (Block.underLimit w e) (Block.underLimit w e') := by
  cases w with
  | none => exact h
  | some w => exact .limit w.take w.skip h

/-- Below an ordering they may be dropped too. -/
theorem underOrder (h : DropsEmptyOrders e e') (keys : List OrderKey) :
    DropsEmptyOrders (Block.underOrder keys e) (Block.underOrder keys e') := by
  unfold Block.underOrder
  split
  · exact h
  · exact .order keys h

/-- Below a projection they may be dropped too. -/
theorem underProjection (h : DropsEmptyOrders e e') (p : Option Projection) :
    DropsEmptyOrders (Block.underProjection p e) (Block.underProjection p e') := by
  cases p with
  | none => exact h
  | some p => exact .project p.qualifier p.columns p.distinct p.groupBy h

/-- An ordering that is put back is left out if it has no keys. -/
theorem order_underOrder (keys : List OrderKey) (e : Expr) :
    DropsEmptyOrders (.order e keys) (Block.underOrder keys e) := by
  cases keys with
  | nil => exact .drop (.refl e)
  | cons k ks => exact .refl _

end DropsEmptyOrders

/-! ### Nodes below a tree -/

/-- The node lies strictly below the root of the tree. -/
def IsBelow (n e : Expr) : Prop := ∃ c ∈ e.children, n ∈ c.nodes

/-- The nodes of a subtree are among those of the children, in their order. -/
theorem nodes_sublist_of_mem_children {c e : Expr} (h : c ∈ e.children) :
    c.nodes.Sublist (e.children.flatMap nodes) := by
  rw [List.flatMap_def]
  exact List.sublist_flatten_of_mem (List.mem_map_of_mem h)

/-- The nodes of a subtree are among those of the tree, in the same order. -/
theorem nodes_sublist_of_mem {n e : Expr} (h : n ∈ e.nodes) : n.nodes.Sublist e.nodes := by
  induction e using childInduction with
  | h e ih =>
    rw [nodes_eq_cons, List.mem_cons, List.mem_flatMap] at h
    rcases h with rfl | ⟨c, hc, hn⟩
    · exact List.Sublist.refl _
    · rw [nodes_eq_cons e]
      exact ((ih c hc hn).trans (nodes_sublist_of_mem_children hc)).cons e

/-- A node strictly below another has fewer nodes, which is what ends the recursion over blocks. -/
theorem IsBelow.length_nodes_lt {n e : Expr} (h : IsBelow n e) :
    n.nodes.length < e.nodes.length := by
  obtain ⟨c, hc, hn⟩ := h
  have hle := ((nodes_sublist_of_mem hn).trans (nodes_sublist_of_mem_children hc)).length_le
  rw [nodes_eq_cons e, List.length_cons]
  omega

end Expr

namespace Block

open QueryTree.Expr

/-! ### Putting a block back -/

/-- The places of a block that come after the clauses that have been passed are empty. -/
structure Unfilled (stage : Nat) (b : Block) : Prop extends Fresh stage b where
  filters : stage ≤ 4 → b.filters = []

section Absorb

variable {stage : Nat} {b : Block}

/-- After the last clause no place has to be empty. -/
theorem unfilled_last (b : Block) : Unfilled 5 b where
  toFresh := fresh_last b
  filters h := by omega

/-! A clause that goes from the top of the from-item into an empty place is put back where it was. -/

/-- A limit on top of everything becomes the outer one. -/
theorem Unfilled.toExpr_outerLimit (h : Unfilled 0 b) (input : Expr) (w : Window) :
    ({ b with source := .limit input w.take w.skip } : Block).toExpr =
      ({ b with outerLimit := some w, source := input } : Block).toExpr := by
  simp [toExpr, h.outerLimit rfl, h.outerOrder (by omega), h.projection (by omega),
    h.innerLimit (by omega), h.innerOrder (by omega), h.filters (by omega), underLimit, underOrder,
    underProjection]

/-- An ordering above the projection becomes the outer one. -/
theorem Unfilled.toExpr_outerOrder (h : Unfilled stage b) (hstage : stage ≤ 1) (input : Expr)
    (keys : List OrderKey) :
    DropsEmptyOrders ({ b with source := .order input keys } : Block).toExpr
      ({ b with outerOrder := keys, source := input } : Block).toExpr := by
  simp only [toExpr, h.outerOrder hstage, h.projection (by omega), h.innerLimit (by omega),
    h.innerOrder (by omega), h.filters (by omega)]
  exact (DropsEmptyOrders.order_underOrder keys input).underLimit b.outerLimit

/-- A projection becomes that of the block. -/
theorem Unfilled.toExpr_projection (h : Unfilled stage b) (hstage : stage ≤ 2) (q : String)
    (input : Expr) (cs : List Column) (d : Bool) (gs : List Expr) :
    ({ b with source := .project q input cs d gs } : Block).toExpr =
      ({ b with projection := some ⟨q, cs, d, gs⟩, source := input } : Block).toExpr := by
  simp [toExpr, h.projection hstage, h.innerLimit (by omega), h.innerOrder (by omega),
    h.filters (by omega), underLimit, underOrder, underProjection]

/-- A limit below the projection becomes the inner one. -/
theorem Unfilled.toExpr_innerLimit (h : Unfilled 3 b) (input : Expr) (w : Window) :
    ({ b with source := .limit input w.take w.skip } : Block).toExpr =
      ({ b with innerLimit := some w, source := input } : Block).toExpr := by
  simp [toExpr, h.innerLimit (by omega), h.innerOrder (by omega), h.filters (by omega), underLimit,
    underOrder]

/-- An ordering below the projection becomes the inner one. -/
theorem Unfilled.toExpr_innerOrder (h : Unfilled stage b) (hstage : stage ≤ 4) (input : Expr)
    (keys : List OrderKey) :
    DropsEmptyOrders ({ b with source := .order input keys } : Block).toExpr
      ({ b with innerOrder := keys, source := input } : Block).toExpr := by
  simp only [toExpr, h.innerOrder hstage, h.filters hstage]
  have hkeys := DropsEmptyOrders.order_underOrder keys input
  exact (((hkeys.underLimit b.innerLimit).underProjection b.projection).underOrder
    b.outerOrder).underLimit b.outerLimit

/-- A condition is added to those of the block. -/
theorem toExpr_filter (b : Block) (input p : Expr) :
    ({ b with source := .filter input p } : Block).toExpr =
      ({ b with filters := b.filters ++ [p], source := input } : Block).toExpr := by
  simp [toExpr]

/-- Taking clauses off a tree into empty places moves them from the from-item to the block. By
induction on the tree. The stage says which places of the block are still empty, so a clause that is
put into one overwrites no other. An ordering without keys leaves no trace, and the two trees agree
up to such orderings. -/
theorem Unfilled.toExpr_absorb (h : Unfilled stage b) (e : Expr) :
    DropsEmptyOrders ({ b with source := e } : Block).toExpr (absorb stage b e).toExpr := by
  induction e using Expr.treeInduction generalizing stage b with
  | limit input take skip ih _ _ =>
    simp only [absorb]
    split_ifs with h0 h3
    · subst h0
      rw [h.toExpr_outerLimit input ⟨take, skip⟩]
      exact ih { toFresh := h.addOuterLimit _, filters := fun _ => h.filters (by omega) }
    · obtain ⟨rfl, _⟩ := h3
      rw [h.toExpr_innerLimit input ⟨take, skip⟩]
      exact ih { toFresh := h.addInnerLimit _, filters := fun _ => h.filters (by omega) }
    · exact .refl _
  | order input keys ih _ =>
    simp only [absorb]
    split_ifs with h1 h3
    · refine (h.toExpr_outerOrder h1 input keys).trans (ih (b := { b with outerOrder := keys }) ?_)
      exact { toFresh := h.addOuterOrder h1 keys, filters := fun _ => h.filters (by omega) }
    · have hrest := ih (unfilled_last { b with innerOrder := keys })
      exact (h.toExpr_innerOrder (by omega) input keys).trans hrest
    · exact .refl _
  | project q input columns distinct groupBy ih _ _ =>
    simp only [absorb]
    split_ifs with h2
    · rw [h.toExpr_projection h2 q input columns distinct groupBy]
      exact ih { toFresh := h.addProjection h2 _, filters := fun _ => h.filters (by omega) }
    · exact .refl _
  | filter input predicate ih _ =>
    rw [toExpr_filter]
    exact ih (unfilled_last { b with filters := b.filters ++ [predicate] })
  | _ => exact .refl _

end Absorb

/-- The clauses of a block around its from-item are the tree that was split, but for orderings
without keys. -/
theorem split_toExpr (e : Expr) : DropsEmptyOrders e (split e).toExpr := by
  have hunfilled : Unfilled 0 { source := e } := by
    refine { toFresh := ?_, filters := fun _ => rfl }
    constructor <;> intro _ <;> rfl
  exact hunfilled.toExpr_absorb e

/-! ### Where the from-item lies -/

/-- What a block is over is a node of the tree. It is where the walk down the inputs stops, so it is
the tree itself or lies below it. -/
theorem source_absorb_mem_nodes (stage : Nat) (b : Block) (e : Expr) :
    (absorb stage b e).source ∈ e.nodes := by
  induction e using Expr.treeInduction generalizing stage b with
  | limit input take skip ih _ _ =>
    simp only [absorb]
    split_ifs
    · exact mem_nodes_of_mem_children List.mem_cons_self (ih _ _)
    · exact mem_nodes_of_mem_children List.mem_cons_self (ih _ _)
    · exact mem_nodes_self _
  | order input keys ih _ =>
    simp only [absorb]
    split_ifs
    · exact mem_nodes_of_mem_children List.mem_cons_self (ih _ _)
    · exact mem_nodes_of_mem_children List.mem_cons_self (ih _ _)
    · exact mem_nodes_self _
  | project q input columns distinct groupBy ih _ _ =>
    simp only [absorb]
    split_ifs
    · exact mem_nodes_of_mem_children List.mem_cons_self (ih _ _)
    · exact mem_nodes_self _
  | filter input predicate ih _ => exact mem_nodes_of_mem_children List.mem_cons_self (ih _ _)
  | _ => exact mem_nodes_self _

/-- A clause at the root goes into the block, so the from-item lies below it. -/
theorem source_split_isBelow {e : Expr} (h : isClause e = true) : IsBelow (split e).source e := by
  cases e with
  | limit input take skip => exact ⟨input, List.mem_cons_self, source_absorb_mem_nodes 1 _ input⟩
  | order input keys => exact ⟨input, List.mem_cons_self, source_absorb_mem_nodes 2 _ input⟩
  | project q input columns distinct groupBy =>
    exact ⟨input, List.mem_cons_self, source_absorb_mem_nodes 3 _ input⟩
  | filter input predicate => exact ⟨input, List.mem_cons_self, source_absorb_mem_nodes 5 _ input⟩
  | _ => cases h

/-- The from-item is the tree itself, if that is no clause, or lies below it. -/
theorem source_split (e : Expr) :
    isClause e = false ∧ (split e).source = e ∨
      isClause e = true ∧ IsBelow (split e).source e := by
  cases h : isClause e with
  | true => exact .inr ⟨rfl, source_split_isBelow h⟩
  | false => exact .inl ⟨rfl, by rw [split_of_not_isClause h]⟩

/-- The branches of a set operation have fewer nodes than the tree whose block it is. -/
theorem length_nodes_setParts {e : Expr} {s : SetParts} (h : (split e).setParts? = some s) :
    s.left.nodes.length + s.right.nodes.length < e.nodes.length := by
  obtain ⟨_, q, hsource⟩ := source_of_setParts h
  have hle := (nodes_sublist_of_mem (source_absorb_mem_nodes 0 { source := e } e)).length_le
  change (split e).source.nodes.length ≤ e.nodes.length at hle
  rw [hsource, nodes, List.length_cons, List.length_append] at hle
  omega

end Block

namespace Sql

open QueryTree.Expr

/-! ### The recursion of the renderer -/

/-- What renders queries, and what renders from-items. -/
structure Renderer where
  query : Expr → Except QueryError Sql
  item : Expr → Except QueryError Sql

namespace Renderer

variable {d : Dialect}

/-- A from-item that is no table and no join: a query under an alias. -/
def subquery (r : Renderer) (e : Expr) : Except QueryError Sql :=
  match subqueryAlias? e with
  | none => .error (.unsupported e.kind "subquery has no single alias")
  | some qualifier => do
    let sql ← r.query e
    pure (parenthesized sql ++ word (" AS " ++ qualifier))

/-- One round of rendering: the block at the root is split off and rendered here, and the trees in
it by `r`. -/
def oneRound (d : Dialect) (r : Renderer) : Renderer where
  query e :=
    match (Block.split e).setParts? with
    | some s => do
      let left ← r.query s.left
      let right ← r.query s.right
      pure (branch s.left left ++ word (setText s.op s.all) ++ branch s.right right)
    | none => select d (Block.split e) (r.item (Block.split e).source)
  item
    | .scan source qualifier _ => scanItem d source qualifier
    | .join kind left right on => do
      let leftItem ← r.item left
      let rightItem ← r.item right
      let condition ← joinCondition d kind on
      pure (leftItem ++ word (" " ++ joinText kind ++ " ") ++ rightItem ++ condition)
    | e => r.subquery e

section OneRound

variable {r : Renderer} {e : Expr}

/-- A round gives the query that the renderer gives, if the calls do. -/
theorem query_oneRound
    (hset : ∀ s, (Block.split e).setParts? = some s →
      r.query s.left = Sql.query d s.left ∧ r.query s.right = Sql.query d s.right)
    (hblock : (Block.split e).setParts? = none →
      r.item (Block.split e).source = fromItem d (Block.split e).source) :
    (r.oneRound d).query e = Sql.query d e := by
  cases hparts : (Block.split e).setParts? with
  | some s =>
    obtain ⟨hleft, hright⟩ := hset s hparts
    rw [query_of_setParts hparts, ← hleft, ← hright]
    simp only [oneRound, hparts]
  | none =>
    rw [query_of_block hparts, ← hblock hparts]
    simp only [oneRound, hparts]

/-- A subquery is rendered alike in rounds and by recursion, once the query in it is. -/
theorem subquery_eq (hscan : ∀ source q t, e ≠ .scan source q t)
    (hjoin : ∀ kind left right on, e ≠ .join kind left right on)
    (hquery : isDerived e = true → r.query e = Sql.query d e) : r.subquery e = fromItem d e := by
  cases halias : subqueryAlias? e with
  | none =>
    rw [fromItem_of_noAlias hscan hjoin halias]
    simp only [subquery, halias]
  | some q =>
    rw [fromItem_of_alias hscan hjoin halias, ← hquery (isDerived_of_subqueryAlias? halias)]
    simp only [subquery, halias]

/-- A round gives the from-item that the renderer gives, if the calls do. -/
theorem item_oneRound
    (hitems : ∀ kind left right on, e = .join kind left right on →
      r.item left = fromItem d left ∧ r.item right = fromItem d right)
    (hquery : isDerived e = true → r.query e = Sql.query d e) :
    (r.oneRound d).item e = fromItem d e := by
  cases e with
  | scan source q t => exact (fromItem_scan source q t).symm
  | join kind left right on =>
    obtain ⟨hleft, hright⟩ := hitems kind left right on rfl
    rw [fromItem_join, ← hleft, ← hright]
    rfl
  | _ => exact subquery_eq (fun _ _ _ h => by cases h) (fun _ _ _ _ h => by cases h) hquery

end OneRound

/-! ### Rounds -/

/-- A number of rounds that is enough for a query. A table or a join is rendered as a from-item, a
further round on the same tree. -/
def queryRounds (e : Expr) : Nat := 2 * e.nodes.length + if isDerived e then 0 else 2

/-- A number of rounds that is enough for a from-item. -/
def itemRounds (e : Expr) : Nat := 2 * e.nodes.length + 1

/-- The rounds that a query may take are bounded by its size. -/
theorem queryRounds_le (e : Expr) : queryRounds e ≤ 2 * e.nodes.length + 2 := by
  unfold queryRounds
  split <;> omega

/-- The from-item takes fewer rounds than the query. -/
theorem itemRounds_source_lt {e : Expr} (h : (Block.split e).setParts? = none) :
    itemRounds (Block.split e).source < queryRounds e := by
  unfold itemRounds queryRounds
  cases hclause : Block.isClause e with
  | true =>
    have := (Block.source_split_isBelow hclause).length_nodes_lt
    omega
  | false =>
    -- the from-item is the tree itself, and no query in turn: it would be a bare set operation
    rw [Block.split_of_not_isClause hclause]
    cases e <;> simp_all [Block.isClause, isDerived, Block.setParts?_split_setOp]

/-- With enough rounds the calls that are left open are never reached. A round answers one level of
the calls of the two functions on each other. `queryRounds` and `itemRounds` bound how deep these
go, so the renderer at the bottom is not asked. -/
theorem iterate_oneRound (r : Renderer) (n : Nat) :
    (∀ e, queryRounds e ≤ n → ((oneRound d)^[n] r).query e = Sql.query d e) ∧
      ∀ e, itemRounds e ≤ n → ((oneRound d)^[n] r).item e = fromItem d e := by
  induction n with
  | zero =>
    refine ⟨fun e he => ?_, fun e he => ?_⟩
    · rw [queryRounds, nodes_eq_cons, List.length_cons] at he
      omega
    · rw [itemRounds] at he
      omega
  | succ n ih =>
    -- the round on the outside calls the `n` others, each time on a tree that needs fewer
    obtain ⟨ihquery, ihitem⟩ := ih
    rw [Function.iterate_succ_apply']
    refine ⟨fun e he => query_oneRound (fun s hs => ?_) fun hblock => ?_, fun e he =>
      item_oneRound (fun kind left right on hjoin => ?_) fun hderived => ihquery e ?_⟩
    · have hbranches := Block.length_nodes_setParts hs
      have hleft := queryRounds_le s.left
      have hright := queryRounds_le s.right
      have := List.length_pos_of_mem (mem_nodes_self s.left)
      have := List.length_pos_of_mem (mem_nodes_self s.right)
      rw [queryRounds] at he
      exact ⟨ihquery _ (by omega), ihquery _ (by omega)⟩
    · have := itemRounds_source_lt hblock
      exact ihitem _ (by omega)
    · subst hjoin
      rw [itemRounds, nodes, List.length_cons, List.length_append, List.length_append] at he
      exact ⟨ihitem _ (by rw [itemRounds]; omega), ihitem _ (by rw [itemRounds]; omega)⟩
    · rw [itemRounds] at he
      rw [queryRounds, if_pos hderived]
      omega

end Renderer

end Sql

namespace Block

open QueryTree.Expr

/-- Splitting a block off a tree loses nothing. Its clauses around its from-item are the tree again,
but for orderings without keys; its from-item is the tree or lies below it; and rendering, which
splits what it finds again and again, ends within a number of rounds that the nodes of the tree
bound: what stands for the calls below the last round has no effect. -/
theorem split_lossless (e : Expr) :
    DropsEmptyOrders e (split e).toExpr ∧
      (e.any isEmptyOrder = false → (split e).toExpr = e) ∧
      (isClause e = false ∧ (split e).source = e ∨
        isClause e = true ∧ IsBelow (split e).source e) ∧
      ∀ (d : Dialect) (r : Sql.Renderer),
        ((Sql.Renderer.oneRound d)^[2 * e.nodes.length + 2] r).query e = Sql.query d e := by
  refine ⟨split_toExpr e, (split_toExpr e).eq, source_split e, fun d r => ?_⟩
  exact (Sql.Renderer.iterate_oneRound r _).1 e (Sql.Renderer.queryRounds_le e)

/-- The first ten names of adult members who have paid. -/
def payingMembers : Expr :=
  .limit
    (.order
      (.project "p"
        (.order
          (.filter
            (.filter (.scan (.source ⟨"members", none⟩) "m" (.sequenceOf "members"))
              (.unary .isNotNull (.column "m" "paid" .date) .bool))
            (.binary .gt (.column "m" "age" .int64) (.int 17) .bool))
          [⟨.column "m" "age" .int64, .descending⟩])
        [⟨"name", .column "m" "name" .string⟩] true [])
      [⟨.column "p" "name" .string, .ascending⟩])
    (some (.int 10)) none

/-- A tree with an ordering on either side of its projection and two filters is rebuilt from its
block. -/
theorem split_lossless_payingMembers :
    payingMembers.any isEmptyOrder = false ∧ (split payingMembers).filters.length = 2 ∧
      (split payingMembers).toExpr = payingMembers := by
  have hkeys : payingMembers.any isEmptyOrder = false := rfl
  exact ⟨hkeys, rfl, (split_lossless payingMembers).2.1 hkeys⟩

end Block

end QueryTree
