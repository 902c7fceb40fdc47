import QueryTree.Proofs.FoldedAnswers

/-!
# The form of a folded tree

Folding leaves no work behind. What is closed in a folded tree is a constant or fails
(`isFolded_fold`), and a tree of that form is left as it is (`fold_of_isFolded`), so folding twice
is folding once.

The danger lies in a closed expression that fails: it stays, its parts are folded, and the next run
meets constants where there were expressions. They do not help it, since folded parts have the
outcomes that the parts had (`noValue_mapChildren_fold`), and they close nothing, since an
expression is folded only if it was closed before (`isClosed_fold`).
-/

namespace QueryTree.Expr

/-! ### Nothing is left to fold -/

/-- A tree in which every closed expression is a constant or has no value is left as it is. -/
theorem fold_of_isFolded {e : Expr} (h : IsFolded e) : e.fold = e := by
  induction e using childInduction with
  | h e ih =>
    have hchildren : e.mapChildren fold = e := by
      rw [mapChildren_congr (g := id) fun c hc => ih c hc (h.of_mem_children hc), mapChildren_id]
    rcases fold_cases e with ⟨v, _, hclosed, hconst, hv⟩ | ⟨hfold, _⟩
    · exact absurd hv (h e (mem_nodes_self e) hclosed hconst .empty v)
    · rw [hfold, hchildren]

/-- A closed expression of a folded tree is a constant or fails. A folded tree is closed if the tree
was, and folding it again changes nothing. -/
theorem fold_complete (e : Expr) :
    (∀ n ∈ e.fold.nodes, n.isClosed = true →
        n.isConstant = true ∨ ∃ error, n.evaluate .empty = .error error) ∧
      e.fold.isClosed = e.isClosed ∧ e.fold.fold = e.fold := by
  refine ⟨fun n hn hclosed => ?_, isClosed_fold e, fold_of_isFolded (isFolded_fold e)⟩
  cases hconst : n.isConstant with
  | true => exact .inl rfl
  | false =>
    refine .inr ?_
    cases hvalue : n.evaluate .empty with
    | error error => exact ⟨error, rfl⟩
    | ok v => exact absurd hvalue (isFolded_fold e n hn hclosed hconst .empty v)

/-- The product of two sums, the first of which fails. -/
def failingProduct : Expr :=
  mkBinary .multiply
    (mkBinary .plus (mkBinary .divide (int 6) (int 0)) (mkBinary .plus (int 1) (int 2)))
    (mkBinary .plus (int 3) (int 4))

/-- The sum that fails stays, with its second operand folded, and the product stays with it. -/
theorem fold_complete_failingProduct :
    failingProduct.fold =
        mkBinary .multiply (mkBinary .plus (mkBinary .divide (int 6) (int 0)) (int 3)) (int 7) ∧
      (mkBinary .divide (int 6) (int 0) ∈ failingProduct.fold.nodes ∧
        ∃ error, (mkBinary .divide (int 6) (int 0)).evaluate .empty = .error error) ∧
      failingProduct.fold.isClosed = true ∧ failingProduct.fold.fold = failingProduct.fold := by
  obtain ⟨hfolded, hclosed, hagain⟩ := fold_complete failingProduct
  have hnode : mkBinary .divide (int 6) (int 0) ∈ failingProduct.fold.nodes := by
    exact List.mem_cons_of_mem _ (List.mem_cons_of_mem _ List.mem_cons_self)
  refine ⟨rfl, ⟨hnode, ?_⟩, hclosed, hagain⟩
  exact (hfolded _ hnode rfl).resolve_left Bool.false_ne_true

end QueryTree.Expr
