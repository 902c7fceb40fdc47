import Mathlib.Algebra.Order.Group.Multiset
import Mathlib.Tactic.Abel
import QueryTree.Proofs.Rebuild
import QueryTree.Sql.Block
import QueryTree.Sql.Command

/-!
# The order in which a statement is read

Besides names and keywords, three kinds of nodes put something into the text of a statement: a
constant its value, a parameter its placeholder, and a negation its sign (`Expr.contributions`).
In the text these come in another order than in the tree, that of the clauses of a SELECT, in which
the innermost filter comes first and a subquery stands where its block has its from-item
(`Expr.reading`).

Nothing is lost on the way: each clause that a block takes off a tree goes to a place that was still
empty (`Block.Fresh`), so the clauses and the from-item contribute what the tree does
(`Block.split_contributions`), and a statement reads as what its tree contributes
(`Expr.reading_perm`). A cross join has no condition, and one that is written on it belongs to no
statement.

The text leaves places open for parameters and for constants that do not stand in the text itself.
These slots of a tree (`Expr.slots`, and `Expr.places` in the order of the text) are among what it
contributes, in the same order.
-/

namespace QueryTree

namespace Expr

/-! ### Slots -/

/-- The value of a leaf that does not stand in the text. -/
def slot? : Expr → Option Slot
  | param name t => some (.named name t)
  | const (.float x) t => if x.isFinite then none else some (.constant (.float x) t)
  | const (.text s) t => some (.constant (.text s) t)
  | const (.bytes data) t => some (.constant (.bytes data) t)
  | const (.date day) t => some (.constant (.date day) t)
  | const (.time time) t => some (.constant (.time time) t)
  | const (.dateTime dt) t => some (.constant (.dateTime dt) t)
  | _ => none

/-- A cross join without its condition. -/
def dropCondition : Expr → Expr
  | join .cross left right _ => join .cross left right none
  | e => e

/-- The tree without conditions on cross joins. -/
def uncrossed (e : Expr) : Expr := e.transformUp dropCondition

/-- The slots of a tree, from left to right. -/
def slots (e : Expr) : List Slot := e.uncrossed.nodes.filterMap slot?

/-- The subtrees that belong to a statement. -/
def shownChildren : Expr → List Expr
  | join .cross left right _ => [left, right]
  | e => e.children

/-- Conditions of cross joins apart, the subtrees are those that belong to the statement. -/
theorem children_uncrossed (e : Expr) : e.uncrossed.children = e.shownChildren.map uncrossed := by
  have hchildren := children_mapChildren uncrossed e
  unfold uncrossed at hchildren ⊢
  rw [transformUp_eq]
  cases e with
  | join kind left right on =>
    cases kind with
    | cross =>
      rw [mapChildren_join]
      rfl
    | inner | left | right | full => exact hchildren
  | _ => exact hchildren

/-! ### Contributions -/

/-- The node puts something of its own into the text, besides names and keywords: a value, the
placeholder of a parameter, or a sign. Of a table there is only its name. -/
def contributes : Expr → Bool
  | const (.source _) _ => false
  | const .. | param .. | unary .negate .. => true
  | _ => false

/-- The nodes of a tree that contribute to its statement, from left to right. -/
def contributions (e : Expr) : List Expr := e.uncrossed.nodes.filter contributes

theorem contributes_uncrossed (e : Expr) : e.uncrossed.contributes = e.contributes := by
  unfold uncrossed
  rw [transformUp_eq]
  cases e with
  | join kind left right on => cases kind <;> rfl
  | unary op e t => cases op <;> rfl
  | const v t => cases v <;> rfl
  | _ => rfl

/-- A tree contributes its root, if that does, and what its subtrees contribute. -/
theorem contributions_eq (e : Expr) :
    e.contributions = (if e.contributes then [e.uncrossed] else []) ++
      e.shownChildren.flatMap contributions := by
  have hnodes : e.contributions = (if e.contributes then [e.uncrossed] else []) ++
      ((e.shownChildren.map uncrossed).flatMap nodes).filter contributes := by
    rw [contributions, nodes_eq_cons, children_uncrossed, List.filter_cons, contributes_uncrossed]
    split
    · rfl
    · rfl
  rw [hnodes, List.flatMap_map, List.filter_flatMap]
  rfl

/-- A node that contributes comes before what its subtrees contribute. -/
theorem contributions_of_contributes {e : Expr} (h : e.contributes = true) :
    e.contributions = e.uncrossed :: e.shownChildren.flatMap contributions := by
  rw [contributions_eq, if_pos h]
  rfl

/-- A node that does not contribute leaves it to its subtrees. -/
theorem contributions_of_not_contributes {e : Expr} (h : e.contributes = false) :
    e.contributions = e.shownChildren.flatMap contributions := by
  rw [contributions_eq, if_neg (Bool.eq_false_iff.1 h)]
  rfl

/-- Slots are leaves that contribute. -/
theorem slots_eq_filterMap (e : Expr) : e.slots = e.contributions.filterMap slot? := by
  rw [slots, contributions, List.filterMap_filter]
  refine List.filterMap_congr fun n _ => ?_
  cases n with
  | const v t => cases v <;> rfl
  | param => rfl
  | _ => split <;> rfl

section Nodes

variable (input left right p : Expr) (t : LogicalType)

theorem contributions_const {v : Value} (hv : (const v t).contributes = true) :
    (const v t).contributions = [const v t] :=
  contributions_of_contributes hv

theorem contributions_source (s : Source) : (const (.source s) t).contributions = [] :=
  contributions_of_not_contributes rfl

theorem contributions_param (name : String) : (param name t).contributions = [param name t] :=
  contributions_of_contributes rfl

theorem contributions_column (q name : String) : (column q name t).contributions = [] :=
  contributions_of_not_contributes rfl

theorem contributions_binary (op : BinaryOperator) :
    (binary op left right t).contributions = left.contributions ++ right.contributions := by
  have h : (binary op left right t).contributions = [left, right].flatMap contributions :=
    contributions_of_not_contributes rfl
  simpa using h

theorem contributions_negate :
    (unary .negate p t).contributions = (unary .negate p t).uncrossed :: p.contributions := by
  have h : (unary .negate p t).contributions =
      (unary .negate p t).uncrossed :: [p].flatMap contributions := contributions_of_contributes rfl
  simpa using h

theorem contributions_unary {op : UnaryOperator} (hop : op ≠ .negate) :
    (unary op p t).contributions = p.contributions := by
  have hplain : (unary op p t).contributes = false := by
    cases op <;> first | rfl | exact absurd rfl hop
  have h : (unary op p t).contributions = [p].flatMap contributions :=
    contributions_of_not_contributes hplain
  simpa using h

theorem contributions_call (f : String) (args : List Expr) :
    (call f args t).contributions = args.flatMap contributions :=
  contributions_of_not_contributes rfl

theorem contributions_aggregate (f : AggregateFunction) (arg : Option Expr) (d : Bool) :
    (aggregate f arg d t).contributions = arg.toList.flatMap contributions :=
  contributions_of_not_contributes rfl

theorem contributions_scan (q : String) : (scan p q t).contributions = p.contributions := by
  have h : (scan p q t).contributions = [p].flatMap contributions :=
    contributions_of_not_contributes rfl
  simpa using h

theorem contributions_filter :
    (filter input p).contributions = input.contributions ++ p.contributions := by
  have h : (filter input p).contributions = [input, p].flatMap contributions :=
    contributions_of_not_contributes rfl
  simpa using h

theorem contributions_project (q : String) (cs : List Column) (d : Bool) (gs : List Expr) :
    (project q input cs d gs).contributions = input.contributions ++
      cs.flatMap (fun c => c.expr.contributions) ++ gs.flatMap contributions := by
  have h : (project q input cs d gs).contributions =
      (input :: cs.map (·.expr) ++ gs).flatMap contributions := contributions_of_not_contributes rfl
  simpa [List.flatMap_map] using h

theorem contributions_order (ks : List OrderKey) :
    (order input ks).contributions =
      input.contributions ++ ks.flatMap (fun k => k.expr.contributions) := by
  have h : (order input ks).contributions =
      (input :: ks.map (·.expr)).flatMap contributions := contributions_of_not_contributes rfl
  simpa [List.flatMap_map] using h

theorem contributions_limit (take skip : Option Expr) :
    (limit input take skip).contributions = input.contributions ++
      take.toList.flatMap contributions ++ skip.toList.flatMap contributions := by
  have h : (limit input take skip).contributions =
      (input :: take.toList ++ skip.toList).flatMap contributions :=
    contributions_of_not_contributes rfl
  simpa using h

/-- What the condition of a join contributes. -/
def conditionContributions (kind : JoinKind) (on : Option Expr) : List Expr :=
  if kind = .cross then [] else on.toList.flatMap contributions

theorem contributions_join (kind : JoinKind) (on : Option Expr) :
    (join kind left right on).contributions =
      left.contributions ++ right.contributions ++ conditionContributions kind on := by
  by_cases hkind : kind = .cross
  · subst hkind
    have h : (join .cross left right on).contributions = [left, right].flatMap contributions :=
      contributions_of_not_contributes rfl
    simpa [conditionContributions] using h
  · have hshown : (join kind left right on).shownChildren = left :: right :: on.toList := by
      cases kind <;> first | rfl | exact absurd rfl hkind
    have h : (join kind left right on).contributions =
        (join kind left right on).shownChildren.flatMap contributions :=
      contributions_of_not_contributes rfl
    rw [hshown] at h
    simpa [conditionContributions, hkind] using h

theorem contributions_setOp (op : SetOperator) (all : Bool) (q : String) :
    (setOp op all left right q).contributions = left.contributions ++ right.contributions := by
  have h : (setOp op all left right q).contributions = [left, right].flatMap contributions :=
    contributions_of_not_contributes rfl
  simpa using h

theorem contributions_lambda (ps : List Parameter) :
    (lambda ps p).contributions = p.contributions := by
  have h : (lambda ps p).contributions = [p].flatMap contributions :=
    contributions_of_not_contributes rfl
  simpa using h

end Nodes

/-- The slots of the condition of a join. -/
def conditionSlots (kind : JoinKind) (on : Option Expr) : List Slot :=
  if kind = .cross then [] else on.toList.flatMap slots

end Expr

/-! ### Blocks -/

/-- What LIMIT and OFFSET contribute. -/
def Window.contributions (w : Window) : List Expr :=
  w.take.toList.flatMap Expr.contributions ++ w.skip.toList.flatMap Expr.contributions

namespace Block

/-- What the columns of a SELECT contribute. -/
def columnContributions (b : Block) : List Expr :=
  b.projection.toList.flatMap fun p => p.columns.flatMap fun c => c.expr.contributions

/-- What the GROUP BY clause contributes. -/
def groupContributions (b : Block) : List Expr :=
  b.projection.toList.flatMap fun p => p.groupBy.flatMap Expr.contributions

/-- What the ORDER BY clause contributes. -/
def orderContributions (b : Block) : List Expr :=
  (b.outerOrder ++ b.innerOrder).flatMap fun k => k.expr.contributions

/-- What a SELECT contributes, in the order of its clauses, with what its from-item does in between.
-/
def reading (b : Block) (source : List Expr) : List Expr :=
  b.columnContributions ++ source ++ b.filters.reverse.flatMap Expr.contributions ++
    b.groupContributions ++ b.orderContributions ++
      (b.outerLimit.or b.innerLimit).toList.flatMap Window.contributions

/-- The clauses that have not been passed are empty. -/
structure Fresh (stage : Nat) (b : Block) : Prop where
  outerLimit : stage = 0 → b.outerLimit = none
  outerOrder : stage ≤ 1 → b.outerOrder = []
  projection : stage ≤ 2 → b.projection = none
  innerLimit : stage ≤ 3 → b.innerLimit = none
  innerOrder : stage ≤ 4 → b.innerOrder = []

/-- The order of the clauses aside, a block contributes the sum of what its parts do. -/
theorem coe_reading (b : Block) (source : List Expr) :
    (b.reading source : Multiset Expr) =
      b.columnContributions + source + (b.filters.flatMap Expr.contributions : List Expr) +
        b.groupContributions + b.orderContributions +
          ((b.outerLimit.or b.innerLimit).toList.flatMap Window.contributions : List Expr) := by
  have hfilters : ((b.filters.reverse.flatMap Expr.contributions : List Expr) : Multiset Expr) =
      (b.filters.flatMap Expr.contributions : List Expr) :=
    Multiset.coe_eq_coe.2 (b.filters.reverse_perm.flatMap_right _)
  unfold reading
  simp only [← Multiset.coe_add, hfilters]

section Clauses

variable {stage : Nat} {b : Block}

/-- In the last stage nothing is left to be empty. -/
theorem fresh_last (b : Block) : Fresh 5 b := by
  constructor <;> intro h <;> omega

/-- After the outer limit the outer ordering may follow. -/
theorem Fresh.addOuterLimit (h : Fresh 0 b) (w : Window) :
    Fresh 1 { b with outerLimit := some w } where
  outerLimit h1 := by omega
  outerOrder _ := h.outerOrder (by omega)
  projection _ := h.projection (by omega)
  innerLimit _ := h.innerLimit (by omega)
  innerOrder _ := h.innerOrder (by omega)

/-- After the outer ordering the projection may follow. -/
theorem Fresh.addOuterOrder (h : Fresh stage b) (hstage : stage ≤ 1) (keys : List OrderKey) :
    Fresh 2 { b with outerOrder := keys } where
  outerLimit h2 := by omega
  outerOrder h2 := by omega
  projection _ := h.projection (by omega)
  innerLimit _ := h.innerLimit (by omega)
  innerOrder _ := h.innerOrder (by omega)

/-- After the projection the inner limit may follow. -/
theorem Fresh.addProjection (h : Fresh stage b) (hstage : stage ≤ 2) (p : Projection) :
    Fresh 3 { b with projection := some p } where
  outerLimit h3 := by omega
  outerOrder h3 := by omega
  projection h3 := by omega
  innerLimit _ := h.innerLimit (by omega)
  innerOrder _ := h.innerOrder (by omega)

/-- After the inner limit the inner ordering may follow. -/
theorem Fresh.addInnerLimit (h : Fresh 3 b) (w : Window) :
    Fresh 4 { b with innerLimit := some w } where
  outerLimit h4 := by omega
  outerOrder h4 := by omega
  projection h4 := by omega
  innerLimit h4 := by omega
  innerOrder _ := h.innerOrder (by omega)

/-- A limit in either place is the limit of the block, if there was none. -/
theorem reading_limit {w : Window} {b' : Block} (houter : b.outerLimit = none)
    (hinner : b.innerLimit = none)
    (hb : b' = { b with outerLimit := some w } ∨ b' = { b with innerLimit := some w })
    (source : List Expr) : (b'.reading source).Perm (b.reading (source ++ w.contributions)) := by
  have hlimit : b'.outerLimit.or b'.innerLimit = some w := by
    rcases hb with rfl | rfl
    · rfl
    · simp [houter]
  have hcolumns : b'.columnContributions = b.columnContributions := by
    rcases hb with rfl | rfl <;> rfl
  have hgroups : b'.groupContributions = b.groupContributions := by rcases hb with rfl | rfl <;> rfl
  have horder : b'.orderContributions = b.orderContributions := by rcases hb with rfl | rfl <;> rfl
  have hfilters : b'.filters = b.filters := by rcases hb with rfl | rfl <;> rfl
  apply Multiset.coe_eq_coe.1
  rw [coe_reading, coe_reading, hlimit, hcolumns, hgroups, horder, hfilters, houter, hinner]
  simp only [← Multiset.coe_add, Option.none_or, Option.toList_some, Option.toList_none,
    List.flatMap_cons, List.flatMap_nil, List.append_nil, Multiset.coe_nil]
  abel

/-- An outer ordering adds what its keys contribute. -/
theorem reading_outerOrder (h : b.outerOrder = []) (keys : List OrderKey) (source : List Expr) :
    ({ b with outerOrder := keys }.reading source).Perm
      (b.reading (source ++ keys.flatMap fun (k : OrderKey) => k.expr.contributions)) := by
  apply Multiset.coe_eq_coe.1
  rw [coe_reading, coe_reading]
  simp only [columnContributions, groupContributions, orderContributions, h, ← Multiset.coe_add,
    List.flatMap_append, List.nil_append]
  abel

/-- An inner ordering adds what its keys contribute. -/
theorem reading_innerOrder (h : b.innerOrder = []) (keys : List OrderKey) (source : List Expr) :
    ({ b with innerOrder := keys }.reading source).Perm
      (b.reading (source ++ keys.flatMap fun (k : OrderKey) => k.expr.contributions)) := by
  apply Multiset.coe_eq_coe.1
  rw [coe_reading, coe_reading]
  simp only [columnContributions, groupContributions, orderContributions, h, ← Multiset.coe_add,
    List.flatMap_append, List.append_nil]
  abel

/-- A projection adds what its columns and its groups contribute. -/
theorem reading_projection (h : b.projection = none) (p : Projection) (source : List Expr) :
    ({ b with projection := some p }.reading source).Perm
      (b.reading (source ++ (p.columns.flatMap fun (c : Column) => c.expr.contributions) ++
        p.groupBy.flatMap Expr.contributions)) := by
  apply Multiset.coe_eq_coe.1
  rw [coe_reading, coe_reading]
  simp only [columnContributions, groupContributions, orderContributions, h, ← Multiset.coe_add,
    Option.toList_some, Option.toList_none, List.flatMap_cons, List.flatMap_nil, List.append_nil,
    Multiset.coe_nil]
  abel

/-- A filter adds what its predicate contributes. -/
theorem reading_filter (p : Expr) (source : List Expr) :
    ({ b with filters := b.filters ++ [p] }.reading source).Perm
      (b.reading (source ++ p.contributions)) := by
  apply Multiset.coe_eq_coe.1
  rw [coe_reading, coe_reading]
  simp only [columnContributions, groupContributions, orderContributions, ← Multiset.coe_add,
    List.flatMap_append, List.flatMap_cons, List.flatMap_nil, List.append_nil]
  abel

/-- Taking clauses off a tree moves what they contribute from the from-item to the clauses. By
induction on the tree. The clauses are not written in the order of their nodes, so the two lists
agree up to a permutation. -/
theorem absorb_contributions (h : Fresh stage b) (e : Expr) :
    ((absorb stage b e).reading (absorb stage b e).source.contributions).Perm
      (b.reading e.contributions) := by
  induction e using Expr.treeInduction generalizing stage b with
  | limit input take skip ih _ _ =>
    rw [Expr.contributions_limit, List.append_assoc]
    simp only [absorb]
    split_ifs with h0 h3
    · subst h0
      refine (ih (h.addOuterLimit ⟨take, skip⟩)).trans ?_
      exact reading_limit (h.outerLimit rfl) (h.innerLimit (by omega)) (.inl rfl) _
    · -- the limit below the projection becomes that of the block, which has no other
      obtain ⟨rfl, hallows⟩ := h3
      have houter : b.outerLimit = none := by
        simp only [allowsInnerLimit, Bool.and_eq_true, Option.isNone_iff_eq_none] at hallows
        exact hallows.1.1
      refine (ih (h.addInnerLimit ⟨take, skip⟩)).trans ?_
      exact reading_limit houter (h.innerLimit (by omega)) (.inr rfl) _
    · rw [Expr.contributions_limit, List.append_assoc]
      exact .refl _
  | order input keys ih _ =>
    rw [Expr.contributions_order]
    simp only [absorb]
    split_ifs with h1 h3
    · refine (ih (h.addOuterOrder h1 keys)).trans ?_
      exact reading_outerOrder (h.outerOrder h1) keys input.contributions
    · refine (ih (fresh_last { b with innerOrder := keys })).trans ?_
      exact reading_innerOrder (h.innerOrder (by omega)) keys input.contributions
    · rw [Expr.contributions_order]
      exact .refl _
  | project q input columns distinct groupBy ih _ _ =>
    rw [Expr.contributions_project]
    simp only [absorb]
    split_ifs with h2
    · refine (ih (h.addProjection h2 ⟨q, columns, distinct, groupBy⟩)).trans ?_
      exact reading_projection (h.projection h2) ⟨q, columns, distinct, groupBy⟩ input.contributions
    · rw [Expr.contributions_project]
      exact .refl _
  | filter input predicate ih _ =>
    rw [Expr.contributions_filter]
    refine (ih (fresh_last { b with filters := b.filters ++ [predicate] })).trans ?_
    exact reading_filter predicate input.contributions
  | _ => exact .refl _

end Clauses

/-- A block that is only a from-item contributes what that does. -/
theorem reading_bare (e : Expr) (source : List Expr) :
    ({ source := e } : Block).reading source = source := by
  simp [reading, columnContributions, groupContributions, orderContributions]

/-- A tree contributes what its outermost block and the from-item do. -/
theorem split_contributions (e : Expr) :
    ((split e).reading (split e).source.contributions).Perm e.contributions := by
  have hfresh : Fresh 0 { source := e } := by
    constructor <;> intro _ <;> rfl
  have habsorb := absorb_contributions hfresh e
  rw [reading_bare] at habsorb
  exact habsorb

/-- The order within the from-item carries over to the block. -/
theorem reading_perm {b : Block} {source source' : List Expr} (h : source.Perm source') :
    (b.reading source).Perm (b.reading source') := by
  apply Multiset.coe_eq_coe.1
  rw [coe_reading, coe_reading, Multiset.coe_eq_coe.2 h]

/-- What is no clause is a from-item as a whole. -/
theorem split_of_not_isClause {e : Expr} (h : isClause e = false) : split e = { source := e } := by
  cases e with
  | limit | order | project | filter => cases h
  | _ => rfl

/-- A block that is its from-item alone contributes nothing of its own. -/
theorem reading_of_isBare {b : Block} (h : b.isBare = true) (source : List Expr) :
    b.reading source = source := by
  simp only [isBare, Bool.and_eq_true, Option.isNone_iff_eq_none, List.isEmpty_iff] at h
  obtain ⟨⟨⟨⟨⟨houterLimit, houterOrder⟩, hprojection⟩, hinnerLimit⟩, hinnerOrder⟩, hfilters⟩ := h
  simp [reading, columnContributions, groupContributions, orderContributions, houterLimit,
    houterOrder, hprojection, hinnerLimit, hinnerOrder, hfilters]

/-- A block that is a set operation has nothing around it. -/
theorem source_of_setParts {b : Block} {s : SetParts} (h : b.setParts? = some s) :
    b.isBare = true ∧ ∃ q, b.source = .setOp s.op s.all s.left s.right q := by
  unfold setParts? at h
  split_ifs at h with hbare
  refine ⟨hbare, ?_⟩
  split at h
  next op all left right q hsource =>
    obtain rfl := Option.some.inj h
    exact ⟨q, hsource⟩
  next => cases h

end Block

namespace Expr

/-! ### Reading order -/

set_option linter.unusedVariables false in
/-- What a tree contributes, in the order in which it stands in the text of its statement. -/
def reading (e : Expr) : List Expr :=
  match e with
  | .join kind left right on => reading left ++ reading right ++ conditionContributions kind on
  | .setOp _ _ left right _ => reading left ++ reading right
  | .lambda _ body => reading body
  | e =>
    if h : Block.isClause e = true then (Block.split e).reading (reading (Block.split e).source)
    else e.contributions
termination_by sizeOf e
decreasing_by
  · simp only [Expr.join.sizeOf_spec]; omega
  · simp only [Expr.join.sizeOf_spec]; omega
  · simp only [Expr.setOp.sizeOf_spec]; omega
  · simp only [Expr.setOp.sizeOf_spec]; omega
  · simp only [Expr.lambda.sizeOf_spec]; omega
  · exact Block.sizeOf_source_split_lt h

theorem reading_join (kind : JoinKind) (left right : Expr) (on : Option Expr) :
    (join kind left right on).reading =
      left.reading ++ right.reading ++ conditionContributions kind on := by
  rw [reading]

theorem reading_setOp (op : SetOperator) (all : Bool) (left right : Expr) (q : String) :
    (setOp op all left right q).reading = left.reading ++ right.reading := by
  rw [reading]

theorem reading_lambda (ps : List Parameter) (body : Expr) :
    (lambda ps body).reading = body.reading := by
  rw [reading]

theorem reading_scan (source : Expr) (q : String) (t : LogicalType) :
    (scan source q t).reading = source.contributions := by
  rw [reading.eq_def, ← contributions_scan source t q]
  exact dif_neg Bool.false_ne_true

/-- A statement reads as its outermost block does, with the from-item in its place. -/
theorem reading_eq (e : Expr) :
    e.reading = (Block.split e).reading (Block.split e).source.reading := by
  by_cases h : Block.isClause e = true
  · cases e with
    | limit | order | project | filter =>
      rw [reading.eq_def]
      exact dif_pos h
    | _ => cases h
  · rw [Block.split_of_not_isClause (Bool.eq_false_iff.2 h), Block.reading_bare]

/-- The branches of a set operation are read one after the other. -/
theorem reading_of_setParts {e : Expr} {s : Block.SetParts}
    (h : (Block.split e).setParts? = some s) : e.reading = s.left.reading ++ s.right.reading := by
  obtain ⟨hbare, q, hsource⟩ := Block.source_of_setParts h
  rw [reading_eq, Block.reading_of_isBare hbare, hsource, reading_setOp]

/-- A statement reads as what its tree contributes. -/
theorem reading_perm (e : Expr) : e.reading.Perm e.contributions := by
  fun_induction reading e with
  | case1 kind left right on ihl ihr =>
    rw [contributions_join]
    exact (ihl.append ihr).append_right _
  | case2 op all left right q ihl ihr =>
    rw [contributions_setOp]
    exact ihl.append ihr
  | case3 ps body ih =>
    rw [contributions_lambda]
    exact ih
  | case4 e _ _ _ _ ih => exact (Block.reading_perm ih).trans (Block.split_contributions e)
  | case5 e => exact .refl _

end Expr

/-! ### Places -/

/-- The slots of LIMIT and OFFSET. -/
def Window.slots (w : Window) : List Slot :=
  w.take.toList.flatMap Expr.slots ++ w.skip.toList.flatMap Expr.slots

namespace Block

/-- The slots of the columns of a SELECT. -/
def columnSlots (b : Block) : List Slot :=
  b.projection.toList.flatMap fun p => p.columns.flatMap fun c => c.expr.slots

/-- The slots of the GROUP BY clause. -/
def groupSlots (b : Block) : List Slot :=
  b.projection.toList.flatMap fun p => p.groupBy.flatMap Expr.slots

/-- The slots of the ORDER BY clause. -/
def orderSlots (b : Block) : List Slot :=
  (b.outerOrder ++ b.innerOrder).flatMap fun k => k.expr.slots

/-- The slots of a SELECT in the order of its clauses, with those of its from-item in between. -/
def slotsAround (b : Block) (source : List Slot) : List Slot :=
  b.columnSlots ++ source ++ b.filters.reverse.flatMap Expr.slots ++ b.groupSlots ++ b.orderSlots ++
    (b.outerLimit.or b.innerLimit).toList.flatMap Window.slots

/-- The slots of a block are those among what it contributes. -/
theorem slotsAround_filterMap (b : Block) (source : List Expr) :
    b.slotsAround (source.filterMap Expr.slot?) = (b.reading source).filterMap Expr.slot? := by
  have hslots : Expr.slots = fun e => e.contributions.filterMap Expr.slot? :=
    funext Expr.slots_eq_filterMap
  have hwindow : Window.slots = fun w => w.contributions.filterMap Expr.slot? := by
    funext w
    rw [Window.slots, Window.contributions, hslots, List.filterMap_append, List.filterMap_flatMap,
      List.filterMap_flatMap]
  simp only [slotsAround, columnSlots, groupSlots, orderSlots, reading, columnContributions,
    groupContributions, orderContributions, hslots, hwindow, List.filterMap_append,
    List.filterMap_flatMap]

end Block

namespace Expr

set_option linter.unusedVariables false in
/-- The slots of a tree in the order in which they stand in the text of its statement. -/
def places (e : Expr) : List Slot :=
  match e with
  | .join kind left right on => places left ++ places right ++ conditionSlots kind on
  | .setOp _ _ left right _ => places left ++ places right
  | .lambda _ body => places body
  | e =>
    if h : Block.isClause e = true then (Block.split e).slotsAround (places (Block.split e).source)
    else e.slots
termination_by sizeOf e
decreasing_by
  · simp only [Expr.join.sizeOf_spec]; omega
  · simp only [Expr.join.sizeOf_spec]; omega
  · simp only [Expr.setOp.sizeOf_spec]; omega
  · simp only [Expr.setOp.sizeOf_spec]; omega
  · simp only [Expr.lambda.sizeOf_spec]; omega
  · exact Block.sizeOf_source_split_lt h

/-- The places of a statement are the slots in what it reads. -/
theorem places_eq_filterMap (e : Expr) : e.places = e.reading.filterMap slot? := by
  fun_induction places e with
  | case1 kind left right on ihl ihr =>
    have hcondition : conditionSlots kind on =
        (conditionContributions kind on).filterMap slot? := by
      unfold conditionSlots conditionContributions
      split
      · rfl
      · rw [List.filterMap_flatMap, funext slots_eq_filterMap]
    rw [reading_join, ihl, ihr, hcondition, List.filterMap_append, List.filterMap_append]
  | case2 op all left right q ihl ihr =>
    rw [reading_setOp, ihl, ihr, List.filterMap_append]
  | case3 ps body ih => rw [reading_lambda, ih]
  | case4 e _ _ _ _ ih => rw [ih, Block.slotsAround_filterMap, ← reading_eq]
  | case5 e hjoin hset hlambda hclause =>
    rw [slots_eq_filterMap, reading, dif_neg hclause]
    · exact hjoin
    · exact hset
    · exact hlambda

/-- A statement has the slots of its tree. -/
theorem places_perm (e : Expr) : e.places.Perm e.slots := by
  rw [places_eq_filterMap, slots_eq_filterMap]
  exact e.reading_perm.filterMap slot?

end Expr

end QueryTree
