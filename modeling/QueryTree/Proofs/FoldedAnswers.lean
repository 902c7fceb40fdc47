import QueryTree.Proofs.LoweredAnswers

/-!
# A folded tree answers as the tree

Folding can happen at any time: before a query is lowered, after its arguments are put in, or while
a backend for it is sought. It may happen unseen, since

* a folded expression has the outcome of the expression in every environment, the same value or the
  same failure (`evaluate_fold`);
* whatever a tree returns over a set of tables, the folded tree returns (`relation_fold`).

The second holds in one direction only. A scan of a table that has to be computed fails, and folding
may compute the table.
-/

namespace QueryTree

open Attempt

namespace Expr

/-! ### Outcomes -/

/-- Folding keeps the value of an expression. -/
theorem evalBelow_fold (e : Expr) : EvalBelow e e.fold :=
  fun env => .of_eq (evaluate_fold e env).symm

/-- What is folded can be evaluated in place of the original, alone or over a group. -/
theorem simplifies_fold (e : Expr) : Simplifies e e.fold where
  improves _ hf := improves_fold hf e
  hasAggregate := hasAggregate_fold e

/-! ### Relations -/

section Relations

open QueryTree.Relation

variable {tables : Tables}

/-- It does so member by member in a list. -/
theorem forall₂_evalBelow_fold (es : List Expr) : List.Forall₂ EvalBelow es (es.map fold) :=
  forall₂_map_self fun e _ => evalBelow_fold e

/-- It does so where an expression is there. -/
theorem optionRel_evalBelow_fold (o : Option Expr) : Option.Rel EvalBelow o (o.map fold) :=
  optionRel_map_self fun e _ => evalBelow_fold e

/-- The relation of a tree is the relation of the folded tree. By induction on the tree: each
operator computes its relation from that of its input and from expressions, which keep their values
when they are folded. -/
theorem relation_fold (e : Expr) : Below (relation tables e) (relation tables e.fold) := by
  induction e using treeInduction with
  | scan s a t _ =>
    intro r hr
    obtain ⟨v, t', rfl⟩ := exists_const_of_relation_scan hr
    exact hr
  | filter i p ih _ =>
    rw [fold_of_isRelational rfl, mapChildren_filter]
    refine Below.bind ih fun r _ => Below.bind (fun rows hrows => ?_) fun _ _ => .refl _
    rw [liftEval_eq_ok_iff] at hrows ⊢
    exact filterRows_below (evalBelow_fold p) r.rows rows hrows
  | project a i cs d gs ih _ _ =>
    rw [fold_of_isRelational rfl, mapChildren_project]
    refine Below.bind ih fun r _ => project_below ?_ (forall₂_evalBelow_fold gs) r a d
    exact forall₂_map_self fun c _ => ⟨rfl, simplifies_fold c.expr⟩
  | order i ks ih _ =>
    rw [fold_of_isRelational rfl, mapChildren_order]
    refine Below.bind ih fun r _ s hs => ?_
    rw [liftEval_eq_ok_iff] at hs ⊢
    refine sort_below ?_ r s hs
    exact forall₂_map_self fun k _ => ⟨rfl, evalBelow_fold k.expr⟩
  | limit i t s ih _ _ =>
    rw [fold_of_isRelational rfl, mapChildren_limit]
    have hskip := rowCount_below (optionRel_evalBelow_fold s)
    have htake := rowCount_below (optionRel_evalBelow_fold t)
    exact Below.bind ih fun r _ => Below.bind hskip fun _ _ => Below.bind htake fun _ _ => .refl _
  | join k l r o ihl ihr _ =>
    rw [fold_of_isRelational rfl, mapChildren_join]
    exact Below.bind ihl fun left _ => Below.bind ihr fun right _ =>
      join_below (optionRel_evalBelow_fold o) k left right
  | setOp op all l r a ihl ihr =>
    rw [fold_of_isRelational rfl, mapChildren_setOp]
    exact Below.bind ihl fun left _ => Below.bind ihr fun right _ => .refl _
  | const | param | column | member | binary | unary | call | aggregate | lambda =>
    intro r hr
    cases hr

end Relations

/-! ### Answers -/

/-- A relation is never folded away. -/
theorem isRelational_fold (e : Expr) : e.fold.isRelational = e.isRelational := by
  have hchildren : Rebuilt (fun _ _ => True) e (e.mapChildren fold) :=
    rebuilt_mapChildren fun _ _ => trivial
  cases hrel : e.isRelational with
  | true => rw [fold_of_isRelational hrel, hchildren.isRelational_eq, hrel]
  | false =>
    rcases fold_cases e with ⟨v, hfold, _⟩ | ⟨hfold, _⟩
    · rw [hfold]
      rfl
    · rw [hfold, hchildren.isRelational_eq, hrel]

/-- Folding is invisible to whoever evaluates or runs the tree. As a scalar the folded tree has the
same outcome in every environment, errors included; as a query it has every answer that the tree
has. -/
theorem outcome_fold (tables : Tables) (env : Env) (e : Expr) :
    e.fold.evaluate env = e.evaluate env ∧
      ∀ v, run tables e = .ok v → run tables e.fold = .ok v := by
  refine ⟨evaluate_fold e env, fun v hv => ?_⟩
  cases hrel : e.isRelational with
  | true =>
    obtain ⟨r, hr, hrows⟩ := (run_eq_ok_iff hrel).1 hv
    exact (run_eq_ok_iff ((isRelational_fold e).trans hrel)).2 ⟨r, relation_fold e r hr, hrows⟩
  | false =>
    rw [run, isRelational_fold, hrel, if_neg Bool.false_ne_true, evaluate_fold e]
    rw [run, hrel, if_neg Bool.false_ne_true] at hv
    exact hv

/-- Rows numbered by owner, each with a load that may be unknown. -/
def loads : Tables :=
  [("t", ⟨["owner", "load"], [[.int 1, .int 4], [.int 2, .null], [.int 1, .int 5]]⟩)]

/-- The doubled load of each owner from 2 - 1 on, with constants in the predicate, in the argument
of the aggregate, beside it and in the grouping key. -/
def doubledLoads : Expr :=
  .project "q"
    (.filter (mkScan (source ⟨"t", none⟩) "t")
      (mkBinary .gtEq (.column "t" "owner" .int64) (mkBinary .minus (.int 2) (.int 1))))
    [⟨"owner", mkBinary .plus (.column "t" "owner" .int64) (mkBinary .minus (.int 1) (.int 1))⟩,
      ⟨"load", mkBinary .plus (mkBinary .multiply (.int 0) (.int 7))
        (mkAggregate .sum (some (mkBinary .multiply (.column "t" "load" .int64)
          (mkBinary .plus (.int 1) (.int 1)))) false)⟩] false
    [mkBinary .plus (.column "t" "owner" .int64) (mkBinary .minus (.int 1) (.int 1))]

/-- A closed factor in a column is folded, and the loads come out as they were. -/
theorem outcome_fold_doubledLoads :
    run loads doubledLoads =
        .ok (.rows ⟨["owner", "load"], [[.int 1, .int 18], [.int 2, .null]]⟩) ∧
      run loads doubledLoads.fold =
        .ok (.rows ⟨["owner", "load"], [[.int 1, .int 18], [.int 2, .null]]⟩) := by
  have hrun : run loads doubledLoads =
      .ok (.rows ⟨["owner", "load"], [[.int 1, .int 18], [.int 2, .null]]⟩) := rfl
  exact ⟨hrun, (outcome_fold loads .empty doubledLoads).2 _ hrun⟩

end Expr

end QueryTree
