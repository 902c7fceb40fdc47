import QueryTree.Memory.Provider
import QueryTree.Proofs.Lowering
import QueryTree.Proofs.Rows

/-!
# A lowered query answers as the query

The in-memory backend lowers the body of a query once and then, for each list of arguments, puts the
arguments in, folds what became closed and runs the tree. Whenever it returns an answer, and running
the body itself with the arguments put in returns one, the two are the same
(`eq_of_invoke_lowerBody`). The body may not test equality with a literal NULL, since that is what
lowering gives a meaning of its own.

Every expression of the tree that is run simplifies its original (`simplifies_lowered`), so an
operation on rows that succeeds with the original expressions has the same result with the new ones.
One operation is changed as a whole: two filters become one. The conjunction is evaluated on every
row of the input, also where the first predicate is NULL and the second filter never looked; there
it may fail, but when it does not, the same rows are selected (`filterRows_and`). This is why an
answer of the lowered query is a hypothesis and not a conclusion.
-/

namespace QueryTree

open Attempt

/-! ### Simplified expressions -/

namespace Expr

/-- The second expression can be evaluated in place of the first, alone or over a group. -/
structure Simplifies (e e' : Expr) : Prop where
  improves : ∀ f, ReducesMonotonically f → Improves f e e'
  hasAggregate : e'.hasAggregate = e.hasAggregate

/-- What can be evaluated in place of an expression keeps its values. -/
theorem Simplifies.evalBelow {e e' : Expr} (h : Simplifies e e') : EvalBelow e e' :=
  (h.improves _ reducesMonotonically_ok).evalBelow

/-- Arguments are constants, so they bring no aggregate and hide none. -/
theorem hasAggregate_substitute (bs : Bindings) (e : Expr) :
    (e.substitute bs).hasAggregate = e.hasAggregate := by
  induction e using childInduction generalizing bs with
  | h e ih =>
    rcases substitute_cases bs e with ⟨n, t, rfl⟩ | ⟨ps, b, rfl⟩ | heq
    · rw [substitute]
      cases bs.find? n <;> rfl
    · exact (Rebuilt.lambda ps (ih b List.mem_cons_self _)).hasAggregate_eq
    · rw [heq]
      exact (rebuilt_mapChildren fun c hc => ih c hc bs).hasAggregate_eq

end Expr

/-! ### Operations with simplified expressions -/

namespace Relation

open QueryTree.Expr

variable {columns : List QualifiedName}

/-- A filter keeps its result under a predicate with more values. -/
theorem filterRows_below {p p' : Expr} (h : EvalBelow p p') (rows : List Row) :
    Below (filterRows columns p rows) (filterRows columns p' rows) := by
  induction rows with
  | nil => exact .refl _
  | cons row rows ih =>
    rw [filterRows, filterRows]
    exact Below.bind (h _) fun v _ => Below.bind ih fun kept _ => .refl _

/-- Expressions that keep values keep lists of them. -/
theorem evaluateList_below {es es' : List Expr} (h : List.Forall₂ EvalBelow es es') (env : Env) :
    Below (evaluateList env es) (evaluateList env es') := by
  rw [evaluateList_eq, evaluateList_eq]
  exact Below.mapM (h.imp fun _ _ h => h env)

/-- Sorting keeps its result under keys with more values. -/
theorem sort_below {ks ks' : List OrderKey}
    (h : List.Forall₂ (fun k k' => k'.direction = k.direction ∧ EvalBelow k.expr k'.expr) ks ks')
    (r : Relation) : Below (r.sort ks) (r.sort ks') := by
  have hdirections : ks'.map (·.direction) = ks.map (·.direction) := by
    induction h with
    | nil => rfl
    | cons hk _ ih => rw [List.map_cons, List.map_cons, hk.1, ih]
  have hexprs : List.Forall₂ EvalBelow (ks.map (·.expr)) (ks'.map (·.expr)) := by
    rw [List.forall₂_map_left_iff, List.forall₂_map_right_iff]
    exact h.imp fun _ _ h => h.2
  rw [sort, sort, hdirections]
  refine Below.bind (Below.mapM (List.forall₂_same.2 fun row _ => ?_)) fun _ _ => .refl _
  exact Below.bind (evaluateList_below hexprs _) fun _ _ => .refl _

/-- Grouping keeps its result under keys with more values. -/
theorem groupRows_below {gs gs' : List Expr} (h : List.Forall₂ EvalBelow gs gs') (r : Relation) :
    Below (r.groupRows gs) (r.groupRows gs') := by
  intro groups hgroups
  rw [groupRows] at hgroups ⊢
  cases h with
  | nil => exact hgroups
  | cons hg hgs =>
    obtain ⟨keyed, hkeyed, hgroups⟩ := bind_eq_ok_iff.1 hgroups
    obtain ⟨_, hkeyed', rfl⟩ := foldlM_rel (R := Eq) (S := Eq) (List.forall₂_refl r.rows)
      (fun groups _ row _ next hgroups hrow hnext => by
        subst hgroups hrow
        obtain ⟨key, hkey, hnext⟩ := bind_eq_ok_iff.1 hnext
        exact ⟨next, bind_eq_ok_iff.2
          ⟨key, evaluateList_below (.cons hg hgs) _ key hkey, hnext⟩, rfl⟩) rfl hkeyed
    exact bind_eq_ok_iff.2 ⟨_, hkeyed', hgroups⟩

/-- A projection keeps its rows under columns that simplify the old ones. Simplifying keeps the
aggregates, so both projections are grouped or neither is. -/
theorem projectRows_below {cs cs' : List Column} {gs gs' : List Expr}
    (hcs : List.Forall₂ (fun c c' => c'.name = c.name ∧ Simplifies c.expr c'.expr) cs cs')
    (hgs : List.Forall₂ EvalBelow gs gs') (r : Relation) :
    Below (r.projectRows cs gs) (r.projectRows cs' gs') := by
  have hany : cs'.any (fun c => c.expr.hasAggregate) = cs.any fun c => c.expr.hasAggregate := by
    induction hcs with
    | nil => rfl
    | cons hc _ ih => rw [List.any_cons, List.any_cons, hc.2.hasAggregate, ih]
  have hempty : gs'.isEmpty = gs.isEmpty := by cases hgs <;> rfl
  have hexprs : List.Forall₂ EvalBelow (cs.map (·.expr)) (cs'.map (·.expr)) := by
    rw [List.forall₂_map_left_iff, List.forall₂_map_right_iff]
    exact hcs.imp fun _ _ h => h.2.evalBelow
  rw [projectRows, projectRows, hany, hempty]
  split
  · refine Below.bind (fun groups hgroups => ?_) fun groups _ =>
      Below.mapM (List.forall₂_same.2 fun group _ => Below.mapM (hcs.imp fun c c' hc => ?_))
    · rw [liftEval_eq_ok_iff] at hgroups ⊢
      exact groupRows_below hgs r groups hgroups
    · exact groupValue_below hc.2.improves r.columns group
  · intro rows hrows
    rw [liftEval_eq_ok_iff] at hrows ⊢
    exact Below.mapM (List.forall₂_same.2 fun row _ => evaluateList_below hexprs _) rows hrows

/-- A projection keeps its relation, names included. -/
theorem project_below {cs cs' : List Column} {gs gs' : List Expr}
    (hcs : List.Forall₂ (fun c c' => c'.name = c.name ∧ Simplifies c.expr c'.expr) cs cs')
    (hgs : List.Forall₂ EvalBelow gs gs') (r : Relation) (q : String) (distinct : Bool) :
    Below (r.project q cs distinct gs) (r.project q cs' distinct gs') := by
  have hnames : (cs'.map fun c => (q, c.name)) = cs.map fun c => (q, c.name) := by
    induction hcs with
    | nil => rfl
    | cons hc _ ih => rw [List.map_cons, List.map_cons, hc.1, ih]
  rw [project, project, hnames]
  exact Below.bind (projectRows_below hcs hgs r) fun _ _ => .refl _

/-- A join keeps its relation under a condition with more values. -/
theorem join_below {on on' : Option Expr} (h : Option.Rel EvalBelow on on') (kind : JoinKind)
    (left right : Relation) : Below (join kind left right on) (join kind left right on') := by
  intro r hr
  obtain ⟨hkind, rows, hrows, rfl⟩ := join_eq_ok_iff.1 hr
  refine join_eq_ok_iff.2 ⟨hkind, rows, ?_, rfl⟩
  refine Below.mapM (List.forall₂_same.2 fun row _ => ?_) rows hrows
  refine Below.bind ?_ fun _ _ => .refl _
  split
  · exact .refl _
  · cases h with
    | none => exact .refl _
    | some h => exact filterRows_below h _

/-- A conjunction is true when both sides are. NULL is not true, and neither is a conjunction with
NULL. -/
theorem asBool?_conjunction {l r v : Value} (h : Scalar.conjunction l r = .ok v) :
    (v.asBool? == some true) = ((l.asBool? == some true) && (r.asBool? == some true)) := by
  unfold Scalar.conjunction at h
  split at h
  next hl =>
    obtain rfl := Except.ok.inj h
    rw [hl]
    rfl
  next hr _ =>
    obtain rfl := Except.ok.inj h
    rw [hr, Bool.and_comm]
    rfl
  next hl hr =>
    obtain rfl := Except.ok.inj h
    rw [hl, hr]
    rfl
  next hboth =>
    split at h
    · obtain rfl := Except.ok.inj h
      have hopen : ¬ (l.asBool? = some true ∧ r.asBool? = some true) := fun h => hboth h.1 h.2
      cases hl : l.asBool? == some true with
      | false => rfl
      | true => exact (beq_eq_false_iff_ne.2 fun hr => hopen ⟨beq_iff_eq.1 hl, hr⟩).symm
    · cases h

/-- A conjunction holds on a row, if it can be evaluated there, when both sides hold. -/
theorem holdsOn_and {p q : Expr} {t : LogicalType} {row : Row} {v : Value}
    (h : (Expr.binary .and p q t).evaluate (rowEnv columns row) = .ok v) :
    holdsOn columns (.binary .and p q t) row = (holdsOn columns p row && holdsOn columns q row) := by
  rw [holdsOn, valueOn_eq h]
  obtain ⟨u, hu, hv⟩ := evaluate_binary_eq_ok_iff.1 h
  rw [holdsOn, valueOn_eq hu]
  rcases hv with hdecided | ⟨_, w, hw, hv⟩
  · obtain ⟨rfl, rfl⟩ := Scalar.eq_false_of_decided?_and hdecided
    rfl
  · rw [holdsOn, valueOn_eq hw]
    exact asBool?_conjunction hv

/-- Where a conjunction can be evaluated on every row, so can its left side, and the conjunction
selects what the right side selects of what the left side selects. -/
theorem filterRows_and {p q : Expr} {t : LogicalType} {rows kept : List Row}
    (h : filterRows columns (.binary .and p q t) rows = .ok kept) :
    ∃ first, filterRows columns p rows = .ok first ∧
      ∀ {q' : Expr} {kept'}, EvalBelow q' q → filterRows columns q' first = .ok kept' →
        kept = kept' := by
  obtain ⟨hdef, rfl⟩ := filterRows_eq_ok_iff.1 h
  have hleft : Defined columns p rows := by
    intro row hrow
    obtain ⟨u, hu, _⟩ := evaluate_binary_eq_ok_iff.1 (hdef row hrow)
    exact evaluate_valueOn hu
  refine ⟨_, filterRows_eq_ok_iff.2 ⟨hleft, rfl⟩, fun hq hkept => ?_⟩
  obtain ⟨hdefq, rfl⟩ := filterRows_eq_ok_iff.1 hkept
  rw [List.filter_filter]
  refine List.filter_congr fun row hrow => ?_
  rw [holdsOn_and (hdef row hrow)]
  cases hp : holdsOn columns p row with
  | false => rw [Bool.false_and, Bool.and_false]
  | true =>
    have hsame := valueOn_eq (hq _ _ (hdefq row (List.mem_filter.2 ⟨hrow, hp⟩)))
    rw [Bool.true_and, Bool.and_true, holdsOn, holdsOn, hsame]

end Relation

/-! ### The tree that is run -/

namespace Expr

open QueryTree.Relation

/-- What is run of a lowered tree: the arguments are put in and closed subtrees folded again. -/
def lowered (bs : Bindings) (e : Expr) : Expr := (e.lower.substitute bs).fold

/-- Every expression of the tree that is run simplifies its original. -/
theorem simplifies_lowered (bs : Bindings) {e : Expr} (hnull : e.fold.any comparesNull = false) :
    Simplifies (e.substitute bs) (e.lowered bs) where
  improves f hf := (better_lower hnull f hf bs).trans (improves_fold hf _)
  hasAggregate := by
    rw [lowered, hasAggregate_fold, hasAggregate_substitute, hasAggregate_substitute,
      hasAggregate_lower]

section Equations

variable (bs : Bindings)

/-- A relational node is lowered after its children. -/
theorem lower_of_isRelational {e : Expr} (h : e.isRelational = true) :
    e.lower = (e.mapChildren lower).lowerNode := by
  rw [lower, fold_of_isRelational h, transformUp_eq, mapChildren_mapChildren]
  rfl

/-- With the arguments put in, a relational node is folded in its children. -/
theorem fold_substitute_of_isRelational {e : Expr} (h : e.isRelational = true) :
    (e.substitute bs).fold = e.mapChildren fun c => (c.substitute bs).fold := by
  rw [fold_of_isRelational ((isRelational_substitute bs e).trans h)]
  rcases substitute_cases bs e with ⟨n, t, rfl⟩ | ⟨ps, b, rfl⟩ | heq
  · cases h
  · cases h
  · rw [heq, mapChildren_mapChildren]

/-- A node that lowering leaves as it is has its subtrees lowered. -/
theorem lowered_eq_mapChildren {e : Expr} (h : e.isRelational = true)
    (hplain : (e.mapChildren lower).lowerNode = e.mapChildren lower) :
    e.lowered bs = e.mapChildren (lowered bs) := by
  have hrebuilt : Rebuilt (fun _ _ => True) e (e.mapChildren lower) :=
    rebuilt_mapChildren fun _ _ => trivial
  rw [lowered, lower_of_isRelational h, hplain,
    fold_substitute_of_isRelational bs (hrebuilt.isRelational_eq.trans h), mapChildren_mapChildren]
  rfl

/-- A projection is lowered in its parts. -/
theorem lowered_project (a : String) (i : Expr) (cs : List Column) (d : Bool) (gs : List Expr) :
    (project a i cs d gs).lowered bs =
      project a (i.lowered bs) (cs.map (·.map (lowered bs))) d (gs.map (lowered bs)) := by
  rw [lowered_eq_mapChildren bs rfl (by rw [mapChildren_project]; rfl), mapChildren_project]

/-- An ordering without keys is lowered away. -/
theorem lowered_order_nil (i : Expr) : (order i []).lowered bs = i.lowered bs := by
  rw [lowered, lower_of_isRelational rfl, mapChildren_order]
  rfl

/-- An ordering with keys is lowered in its parts. -/
theorem lowered_order_cons (i : Expr) (k : OrderKey) (ks : List OrderKey) :
    (order i (k :: ks)).lowered bs = order (i.lowered bs) ((k :: ks).map (·.map (lowered bs))) := by
  rw [lowered_eq_mapChildren bs rfl (by rw [mapChildren_order]; rfl), mapChildren_order]

/-- A limit is lowered in its parts. -/
theorem lowered_limit (i : Expr) (t s : Option Expr) :
    (limit i t s).lowered bs = limit (i.lowered bs) (t.map (lowered bs)) (s.map (lowered bs)) := by
  rw [lowered_eq_mapChildren bs rfl (by rw [mapChildren_limit]; rfl), mapChildren_limit]

/-- A join is lowered in its parts. -/
theorem lowered_join (k : JoinKind) (l r : Expr) (o : Option Expr) :
    (join k l r o).lowered bs = join k (l.lowered bs) (r.lowered bs) (o.map (lowered bs)) := by
  rw [lowered_eq_mapChildren bs rfl (by rw [mapChildren_join]; rfl), mapChildren_join]

/-- A filter disappears, merges with the filter below it, or stays. -/
theorem lowered_filter_cases (i p : Expr) :
    (p.lower.isTrue = true ∧ (filter i p).lowered bs = i.lowered bs) ∨
      (∃ inner first, i.lowered bs = filter inner first ∧
        (filter i p).lowered bs =
          filter inner (foldNode (binary .and first (p.lowered bs) .bool))) ∨
      (filter i p).lowered bs = filter (i.lowered bs) (p.lowered bs) := by
  have hlower : (filter i p).lower = lowerFilter i.lower p.lower := by
    rw [lower_of_isRelational rfl]
    rfl
  unfold lowerFilter at hlower
  split at hlower
  next htrue => exact .inl ⟨htrue, by rw [lowered, hlower]; rfl⟩
  next =>
    split at hlower
    next inner first heq =>
      refine .inr (.inl ⟨(inner.substitute bs).fold, (first.substitute bs).fold, ?_, ?_⟩)
      · rw [lowered, heq, fold_substitute_of_isRelational bs rfl]
        rfl
      · rw [lowered, hlower, fold_substitute_of_isRelational bs rfl, mapChildren_filter,
          fold_eq_foldNode ((mkBinary .and first p.lower).substitute bs)]
        rfl
    next =>
      refine .inr (.inr ?_)
      rw [lowered, hlower, fold_substitute_of_isRelational bs rfl]
      rfl

/-- A constant argument is run as it is. -/
theorem lowered_of_substitute_eq_const {bs : Bindings} {e : Expr} {v : Value} {t : LogicalType}
    (h : e.substitute bs = .const v t) : e.lowered bs = .const v t := by
  cases e with
  | const => exact h
  | param n t' =>
    show ((param n t').substitute bs).fold = .const v t
    rw [h]
    rfl
  | _ =>
    rw [substitute] at h
    cases h

/-- What a folded relation has not, its folded children have not. -/
theorem any_fold_of_mem_children {p : Expr → Bool} {e c : Expr} (hrel : e.isRelational = true)
    (h : e.fold.any p = false) (hc : c ∈ e.children) : c.fold.any p = false := by
  rw [fold_of_isRelational hrel, any_eq, Bool.or_eq_false_iff, children_mapChildren,
    List.any_eq_false] at h
  exact Bool.eq_false_iff.2 (h.2 _ (List.mem_map_of_mem hc))

end Equations

/-! ### Relations -/

variable {tables : Tables} {bs : Bindings}

/-- The table that is scanned is a constant. -/
theorem exists_const_of_relation_scan {s : Expr} {a : String} {t : LogicalType} {r : Relation}
    (h : relation tables (scan s a t) = .ok r) : ∃ v t', s = .const v t' := by
  cases s with
  | const v t' => exact ⟨v, t', rfl⟩
  | _ => cases h

/-- A bound keeps its value under an expression that does. -/
theorem rowCount_below {o o' : Option Expr} (h : Option.Rel EvalBelow o o') :
    Below (rowCount o) (rowCount o') := by
  cases h with
  | none => exact .refl _
  | some h =>
    refine Below.bind (fun v hv => ?_) fun _ _ => .refl _
    rw [liftEval_eq_ok_iff] at hv ⊢
    exact h _ v hv

/-- What is run of a tree that has a relation is relational. A filter or an ordering may disappear,
but what is left is then its input, to which the induction applies. -/
theorem isRelational_lowered {e : Expr} {r : Relation}
    (h : relation tables (e.substitute bs) = .ok r) : (e.lowered bs).isRelational = true := by
  induction e using treeInduction generalizing r with
  | scan s a t _ => rw [lowered_eq_mapChildren bs rfl rfl]; rfl
  | filter i p ih _ =>
    obtain ⟨s, hs, _⟩ := relation_filter_eq_ok_iff.1 h
    rcases lowered_filter_cases bs i p with ⟨_, heq⟩ | ⟨inner, first, _, heq⟩ | heq
    · rw [heq]
      exact ih hs
    · rw [heq]
      rfl
    · rw [heq]
      rfl
  | project a i cs d gs _ _ _ => rw [lowered_project]; rfl
  | order i ks ih _ =>
    obtain ⟨s, hs, _⟩ := relation_order_eq_ok_iff.1 h
    cases ks with
    | nil =>
      rw [lowered_order_nil]
      exact ih hs
    | cons k ks => rw [lowered_order_cons]; rfl
  | limit i t s _ _ _ => rw [lowered_limit]; rfl
  | join k l r o _ _ _ => rw [lowered_join]; rfl
  | setOp op all l r a _ _ => rw [lowered_eq_mapChildren bs rfl rfl]; rfl
  | param n t =>
    have hrel := isRelational_of_relation_eq_ok h
    rw [isRelational_substitute] at hrel
    cases hrel
  | const | column | member | binary | unary | call | aggregate | lambda => cases h

/-- A filter on a predicate that became `TRUE` selected every row. -/
theorem filter_eq_self_of_lower_isTrue {p : Expr}
    (hp : Simplifies (p.substitute bs) (p.lowered bs)) (htrue : p.lower.isTrue = true)
    {columns : List QualifiedName} {rows : List Row}
    (hdef : Defined columns (p.substitute bs) rows) :
    rows.filter (holdsOn columns (p.substitute bs)) = rows := by
  obtain ⟨t, ht⟩ := eq_of_isTrue htrue
  have hconst : p.lowered bs = .const (.bool true) t := by
    rw [lowered, ht]
    rfl
  refine List.filter_eq_self.2 fun row hrow => ?_
  have hvalue := hp.evalBelow _ _ (hdef row hrow)
  rw [hconst] at hvalue
  rw [holdsOn, ← Except.ok.inj hvalue]
  rfl

/-- The rows of a filter are the same after lowering, also when it has merged with another one. If
two filters have merged, the conjunction selects what the two select one after the other
(`filterRows_and`). -/
theorem agree_lowered_filter {i p : Expr}
    (hi : Agree (relation tables (i.substitute bs)) (relation tables (i.lowered bs)))
    (hp : Simplifies (p.substitute bs) (p.lowered bs)) :
    Agree (relation tables ((filter i p).substitute bs))
      (relation tables ((filter i p).lowered bs)) := by
  intro r r' h h'
  rcases lowered_filter_cases bs i p with ⟨htrue, heq⟩ | ⟨inner, first, hmerge, heq⟩ | heq
  · obtain ⟨s, hs, hdef, rfl⟩ := relation_filter_eq_ok_iff.1 h
    rw [heq] at h'
    obtain rfl := hi s r' hs h'
    rw [filter_eq_self_of_lower_isTrue hp htrue hdef]
  · rw [substitute, relation, bind_eq_ok_iff] at h
    obtain ⟨s, hs, h⟩ := h
    obtain ⟨rows, hrows, hr⟩ := bind_eq_ok_iff.1 h
    rw [heq, relation, bind_eq_ok_iff] at h'
    obtain ⟨s', hs', h'⟩ := h'
    obtain ⟨rows', hrows', hr'⟩ := bind_eq_ok_iff.1 h'
    rw [liftEval_eq_ok_iff] at hrows hrows'
    have hand := filterRows_below (fun env => .of_eq (evaluate_foldNode _ env)) s'.rows rows' hrows'
    obtain ⟨kept, hkept, hsame⟩ := filterRows_and hand
    -- the filter below by itself can be run too, and has the rows of the original
    have hinner : relation tables (i.lowered bs) = .ok { s' with rows := kept } := by
      rw [hmerge, relation, bind_eq_ok_iff]
      exact ⟨s', hs', bind_eq_ok_iff.2 ⟨kept, liftEval_eq_ok_iff.2 hkept, rfl⟩⟩
    obtain rfl := hi s _ hs hinner
    obtain rfl := hsame hp.evalBelow hrows
    exact (pure_eq_ok_iff.1 hr').symm.trans (pure_eq_ok_iff.1 hr)
  · rw [substitute, relation] at h
    rw [heq, relation] at h'
    refine Agree.bind hi (fun s => Below.agree (Below.bind (fun rows hrows => ?_) fun _ _ => .refl _))
      r r' h h'
    rw [liftEval_eq_ok_iff] at hrows ⊢
    exact filterRows_below hp.evalBelow s.rows rows hrows

/-- Lists of scalars are lowered to lists that keep values. -/
theorem forall₂_evalBelow_lowered {es : List Expr}
    (h : ∀ e ∈ es, Simplifies (e.substitute bs) (e.lowered bs)) :
    List.Forall₂ EvalBelow (substituteList bs es) (es.map (lowered bs)) := by
  rw [substituteList_eq, List.forall₂_map_left_iff, List.forall₂_map_right_iff]
  exact List.forall₂_same.2 fun e he => (h e he).evalBelow

/-- An optional scalar is lowered to one that keeps values. -/
theorem optionRel_evalBelow_lowered {o : Option Expr}
    (h : ∀ e ∈ o, Simplifies (e.substitute bs) (e.lowered bs)) :
    Option.Rel EvalBelow (substituteOption bs o) (o.map (lowered bs)) := by
  cases o with
  | none => exact .none
  | some e => exact .some (h e rfl).evalBelow

/-- If both the tree and the lowered tree have a relation it is the same. By induction on the tree.
Tests for equality with NULL are excluded because lowering turns them into IS NULL, which is true
where the test is unknown. -/
theorem agree_lowered {e : Expr} (hnull : e.fold.any comparesNull = false) :
    Agree (relation tables (e.substitute bs)) (relation tables (e.lowered bs)) := by
  induction e using treeInduction with
  | scan s a t _ =>
    intro r r' h h'
    obtain ⟨v, t', hs⟩ := exists_const_of_relation_scan h
    rw [substitute, hs] at h
    rw [lowered_eq_mapChildren bs rfl rfl, mapChildren_scan, lowered_of_substitute_eq_const hs] at h'
    exact Except.ok.inj (h'.symm.trans h)
  | filter i p ihi _ =>
    have hchild := fun c => any_fold_of_mem_children (c := c) rfl hnull
    exact agree_lowered_filter (ihi (hchild i (by simp [children])))
      (simplifies_lowered bs (hchild p (by simp [children])))
  | project a i cs d gs ihi _ _ =>
    have hchild := fun c => any_fold_of_mem_children (c := c) rfl hnull
    rw [substitute, relation, lowered_project, relation]
    refine Agree.bind (ihi (hchild i (by simp [children]))) fun r =>
      (project_below ?_ (forall₂_evalBelow_lowered fun g hg => ?_) r a d).agree
    · rw [substituteColumns_eq, List.forall₂_map_left_iff, List.forall₂_map_right_iff]
      refine List.forall₂_same.2 fun c hc => ⟨rfl, simplifies_lowered bs (hchild c.expr ?_)⟩
      have hmem := List.mem_map_of_mem (f := fun c : Column => c.expr) hc
      exact List.mem_cons_of_mem _ (List.mem_append_left _ hmem)
    · exact simplifies_lowered bs
        (hchild g (List.mem_cons_of_mem _ (List.mem_append_right _ hg)))
  | order i ks ihi _ =>
    have hchild := fun c => any_fold_of_mem_children (c := c) rfl hnull
    have hi := ihi (hchild i (by simp [children]))
    cases ks with
    | nil =>
      intro r r' h h'
      obtain ⟨s, hs, _, rfl⟩ := relation_order_eq_ok_iff.1 h
      rw [lowered_order_nil] at h'
      obtain rfl := hi s r' hs h'
      rw [substituteKeys, sortBy_rowCompare_nil]
    | cons k ks =>
      rw [substitute, relation, lowered_order_cons, relation]
      refine Agree.bind hi fun r => Below.agree fun s hs => ?_
      rw [liftEval_eq_ok_iff] at hs ⊢
      refine sort_below ?_ r s hs
      rw [substituteKeys_eq, List.forall₂_map_left_iff, List.forall₂_map_right_iff]
      refine List.forall₂_same.2 fun key hkey => ⟨rfl, ?_⟩
      refine (simplifies_lowered bs (hchild key.expr (List.mem_cons_of_mem _ ?_))).evalBelow
      exact List.mem_map_of_mem (f := fun k : OrderKey => k.expr) hkey
  | limit i t s ihi _ _ =>
    have hchild := fun c => any_fold_of_mem_children (c := c) rfl hnull
    rw [substitute, relation, lowered_limit, relation]
    have hs : Below (rowCount (substituteOption bs s)) (rowCount (s.map (lowered bs))) :=
      rowCount_below (optionRel_evalBelow_lowered fun e he => simplifies_lowered bs
        (hchild e (List.mem_cons_of_mem _ (List.mem_append_right _ (Option.mem_toList.2 he)))))
    have ht : Below (rowCount (substituteOption bs t)) (rowCount (t.map (lowered bs))) :=
      rowCount_below (optionRel_evalBelow_lowered fun e he => simplifies_lowered bs
        (hchild e (List.mem_cons_of_mem _ (List.mem_append_left _ (Option.mem_toList.2 he)))))
    exact Agree.bind (ihi (hchild i (by simp [children]))) fun r =>
      (Below.bind hs fun _ _ => Below.bind ht fun _ _ => .refl _).agree
  | join k l r o ihl ihr _ =>
    have hchild := fun c => any_fold_of_mem_children (c := c) rfl hnull
    rw [substitute, relation, lowered_join, relation]
    refine Agree.bind (ihl (hchild l (by simp [children]))) fun left =>
      Agree.bind (ihr (hchild r (by simp [children]))) fun right =>
        (join_below (optionRel_evalBelow_lowered fun e he => ?_) k left right).agree
    exact simplifies_lowered bs (hchild e
      (List.mem_cons_of_mem _ (List.mem_cons_of_mem _ (Option.mem_toList.2 he))))
  | setOp op all l r a ihl ihr =>
    have hchild := fun c => any_fold_of_mem_children (c := c) rfl hnull
    rw [substitute, relation, lowered_eq_mapChildren bs rfl rfl, mapChildren_setOp, relation]
    exact Agree.bind (ihl (hchild l (by simp [children]))) fun left =>
      Agree.bind (ihr (hchild r (by simp [children]))) fun right => (Below.refl _).agree
  | param n t =>
    intro r r' h _
    have hrel := isRelational_of_relation_eq_ok h
    rw [isRelational_substitute] at hrel
    cases hrel
  | const | column | member | binary | unary | call | aggregate | lambda =>
    intro r r' h _
    cases h

/-! ### Answers -/

/-- An invocation of the lowered body that returns has the answer of the body itself. -/
theorem agree_run_lowered {e : Expr} (hnull : e.fold.any comparesNull = false) :
    Agree (run tables (e.substitute bs)) (run tables (e.lowered bs)) := by
  intro v w hv hw
  cases hrel : (e.substitute bs).isRelational with
  | true =>
    obtain ⟨r, hr, rfl⟩ := (run_eq_ok_iff hrel).1 hv
    obtain ⟨r', hr', rfl⟩ := (run_eq_ok_iff (isRelational_lowered hr)).1 hw
    rw [agree_lowered hnull r r' hr hr']
  | false =>
    rw [run, hrel, if_neg Bool.false_ne_true, liftEval_eq_ok_iff] at hv
    have hvalue := (simplifies_lowered bs hnull).evalBelow .empty v hv
    cases hrel' : (e.lowered bs).isRelational with
    | true => exact absurd hvalue (noValue_of_isRelational hrel' .empty v)
    | false =>
      rw [run, hrel', if_neg Bool.false_ne_true, liftEval_eq_ok_iff, hvalue] at hw
      exact (Except.ok.inj hw).symm

/-- Lowering a query when it is compiled never changes an answer. If the original has an answer for
the arguments and so does what was compiled, it is the same answer. Literal tests for equality with
NULL are excluded, which lowering changes on purpose. -/
theorem eq_of_invoke_lowerBody {params : List Parameter} {body body' : Expr} {args : List Value}
    {v w : Value} (hnull : body.fold.any comparesNull = false) (hlower : lowerBody body = .ok body')
    (hv : run tables (body.substitute (.ofArguments params args)) = .ok v)
    (hw : Memory.invoke tables ⟨params, body'⟩ args = .ok w) : v = w := by
  rw [lowerBody] at hlower
  split at hlower
  · cases hlower
  · obtain rfl := Except.ok.inj hlower
    exact (agree_run_lowered hnull v w hv hw).symm

/-- Four numbered rows. -/
def fourRows : Tables := [("t", ⟨["n"], [[.int 1], [.int 2], [.int 3], [.int 4]]⟩)]

/-- The numbers from 2 up to a limit, by two filters of which the second is written in a roundabout
way. -/
def upToLimit : Expr :=
  .project "q"
    (.filter
      (.filter (mkScan (source ⟨"t", none⟩) "t")
        (mkBinary .ltEq (mkBinary .plus (.int 1) (.int 1)) (.column "t" "n" .int64)))
      (mkBinary .and (.const (.bool true) .bool)
        (mkUnary .not (mkUnary .not
          (mkBinary .gtEq (.param "limit" .int64) (.column "t" "n" .int64))))))
    [⟨"n", .column "t" "n" .int64⟩] false []

/-- The rows up to a limit that is an argument: lowered, they are computed as they were. -/
theorem eq_of_invoke_lowerBody_upToLimit :
    upToLimit.fold.any comparesNull = false ∧ lowerBody upToLimit = .ok upToLimit.lower ∧
      ∃ w, Memory.invoke fourRows ⟨[⟨"limit", .int64⟩], upToLimit.lower⟩ [.int 3] = .ok w ∧
        .rows ⟨["n"], [[.int 2], [.int 3]]⟩ = w := by
  have hlower : lowerBody upToLimit = .ok upToLimit.lower := rfl
  have hrun : run fourRows (upToLimit.substitute (.ofArguments [⟨"limit", .int64⟩] [.int 3])) =
      .ok (.rows ⟨["n"], [[.int 2], [.int 3]]⟩) := rfl
  have hinvoke : ∃ w, Memory.invoke fourRows ⟨[⟨"limit", .int64⟩], upToLimit.lower⟩ [.int 3] =
      .ok w := ⟨_, rfl⟩
  obtain ⟨w, hw⟩ := hinvoke
  exact ⟨rfl, hlower, w, hw, eq_of_invoke_lowerBody rfl hlower hrun hw⟩

-- Where the first of two predicates is NULL, one filter evaluates the second and fails.
example :
    let tables : Tables := [("t", ⟨["n", "m"], [[.null, .int 0], [.int 1, .int 5]]⟩)]
    let positive := mkBinary .gt (.column "t" "n" .int64) (.int 0)
    let halved := mkBinary .gt (mkBinary .divide (.int 10) (.column "t" "m" .int64)) (.int 1)
    let body := filter (filter (mkScan (source ⟨"t", none⟩) "t") positive) halved
    run tables body = .ok (.rows ⟨["n", "m"], [[.int 1, .int 5]]⟩) ∧
      Memory.invoke tables ⟨[], body.lower⟩ [] = .error (.eval .divisionByZero) :=
  ⟨rfl, rfl⟩

end Expr

end QueryTree
