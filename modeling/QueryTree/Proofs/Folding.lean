import QueryTree.Proofs.Improvement
import QueryTree.Scalar.Fold

/-!
# Folding closed subtrees

A closed expression has one value or none, whatever the environment and the arguments
(`evaluate_of_isClosed`, `substitute_of_isClosed`).

Folding asks about a node before its subtrees (`fold_eq`): a closed node with a value becomes that
value, and every other node keeps its place over folded subtrees. So a closed node that fails is not
asked again once its subtrees have become constants. It need not be: a folded tree has the outcome
of the tree, and is closed if the tree is (`evaluate_fold`, `isClosed_fold`). Hence folding a node
after its subtrees comes to the same tree (`fold_eq_foldNode`), and folding is a change of every
node from the leaves up (`fold_eq_transformUp`).

From that form it follows that a folded tree is better than the tree (`better_fold`), also when the
arguments are known already (`improves_fold`). What is left of a closed subtree after folding is a
constant or an expression that has no value (`isFolded_fold`). A later pass can rely on it: an
expression that it turns into a constant was one before, or has no value.
-/

namespace QueryTree

open Attempt

namespace Expr

/-! ### Closed expressions -/

/-- Arguments are closed if each is. -/
theorem areClosed_iff {es : List Expr} : areClosed es = true ↔ ∀ e ∈ es, e.isClosed = true := by
  induction es with
  | nil => simp [areClosed]
  | cons e es ih => rw [areClosed, Bool.and_eq_true, ih, List.forall_mem_cons]

/-- A closed expression does not read its environment. -/
theorem evaluate_of_isClosed {e : Expr} (h : e.isClosed = true) (env : Env) :
    e.evaluate env = e.evaluate .empty := by
  induction e using treeInduction with
  | const => rfl
  | member e n t ih => rw [evaluate, evaluate, ih h]
  | binary op l r t ihl ihr =>
    rw [isClosed, Bool.and_eq_true] at h
    rw [evaluate, evaluate, ihl h.1, ihr h.2]
  | unary op e t ih => rw [evaluate, evaluate, ih h]
  | call n es t ih =>
    rw [isClosed, Bool.and_eq_true, areClosed_iff] at h
    rw [evaluate, evaluate, evaluateList_eq, evaluateList_eq,
      mapM_congr fun e he => ih e he (h.2 e he)]
  | param | column | aggregate | lambda | scan | filter | project | order | limit | join | setOp =>
    cases h

/-- There is nothing to put in for in a closed expression. -/
theorem substitute_of_isClosed {e : Expr} (h : e.isClosed = true) (bs : Bindings) :
    e.substitute bs = e := by
  induction e using treeInduction with
  | const => rfl
  | member e n t ih => rw [substitute, ih h]
  | binary op l r t ihl ihr =>
    rw [isClosed, Bool.and_eq_true] at h
    rw [substitute, ihl h.1, ihr h.2]
  | unary op e t ih => rw [substitute, ih h]
  | call n es t ih =>
    rw [isClosed, Bool.and_eq_true, areClosed_iff] at h
    rw [substitute, substituteList_eq, List.map_congr_left fun e he => ih e he (h.2 e he),
      List.map_id']
  | param | column | aggregate | lambda | scan | filter | project | order | limit | join | setOp =>
    cases h

/-- The parts of a closed expression are closed. -/
theorem isClosed_of_mem_children {e c : Expr} (h : e.isClosed = true) (hc : c ∈ e.children) :
    c.isClosed = true := by
  cases e with
  | const => cases hc
  | member e n t => exact List.mem_singleton.1 hc ▸ h
  | binary op l r t =>
    rw [isClosed, Bool.and_eq_true] at h
    rcases List.mem_cons.1 hc with rfl | hc
    · exact h.1
    · exact List.mem_singleton.1 hc ▸ h.2
  | unary op e t => exact List.mem_singleton.1 hc ▸ h
  | call n es t =>
    rw [isClosed, Bool.and_eq_true, areClosed_iff] at h
    exact h.2 c hc
  | param | column | aggregate | lambda | scan | filter | project | order | limit | join | setOp =>
    cases h

/-- An aggregate makes an expression open. -/
theorem hasAggregate_of_isClosed {e : Expr} (h : e.isClosed = true) : e.hasAggregate = false := by
  induction e using childInduction with
  | h e ih =>
    rw [hasAggregate_eq, Bool.or_eq_false_iff]
    constructor
    · cases e <;> first | rfl | cases h
    · rw [List.any_eq_false]
      intro c hc
      rw [ih c hc (isClosed_of_mem_children h hc)]
      exact Bool.false_ne_true

/-- Without aggregates there is nothing to compute. -/
theorem transformUpM_of_hasAggregate_eq_false {f : Expr → Except Fault Expr}
    (hf : ReducesMonotonically f) {e : Expr} (h : e.hasAggregate = false) :
    e.transformUpM f = .ok e := by
  induction e using childInduction with
  | h e ih =>
    rw [hasAggregate_eq, Bool.or_eq_false_iff, List.any_eq_false] at h
    refine transformUpM_eq_ok_iff.2 ⟨e, rebuilt_self fun c hc => ih c hc ?_, hf.other e h.1⟩
    exact Bool.eq_false_iff.2 (h.2 c hc)

/-! ### From the root down -/

/-- A closed node is folded to its value, or it is a constant or has no value. -/
theorem folded?_cases (e : Expr) :
    (∃ v, e.folded? = some (.const v (foldedType e.type v)) ∧ e.isClosed = true ∧
        e.isConstant = false ∧ e.evaluate .empty = .ok v) ∨
      (e.folded? = none ∧ (e.isClosed = true → e.isConstant = false → NoValue e)) := by
  rw [folded?]
  split
  next h =>
    rw [Bool.and_eq_true, Bool.not_eq_true'] at h
    split
    next v hv => exact .inl ⟨v, rfl, h.1, h.2, hv⟩
    next error herror =>
      refine .inr ⟨rfl, fun hclosed _ env v hv => ?_⟩
      rw [evaluate_of_isClosed hclosed, herror] at hv
      cases hv
  next h =>
    refine .inr ⟨rfl, fun hclosed hconst => absurd ?_ h⟩
    rw [hclosed, hconst]
    rfl

/-- A node becomes its value if it is closed and has one; else its direct subtrees are folded. -/
theorem fold_eq (e : Expr) : e.fold = e.folded?.getD (e.mapChildren fold) :=
  replaceOutermost_eq folded? e

/-- The recursion of folding, by what becomes of the root: it is its value, or it has none to become
and stays over its folded subtrees. -/
theorem fold_cases (e : Expr) :
    (∃ v, e.fold = .const v (foldedType e.type v) ∧ e.isClosed = true ∧ e.isConstant = false ∧
        e.evaluate .empty = .ok v) ∨
      (e.fold = e.mapChildren fold ∧ (e.isClosed = true → e.isConstant = false → NoValue e)) := by
  rw [fold_eq]
  rcases folded?_cases e with ⟨v, hfolded, h⟩ | ⟨hfolded, h⟩
  · rw [hfolded]
    exact .inl ⟨v, rfl, h⟩
  · rw [hfolded]
    exact .inr ⟨rfl, h⟩

/-- A relation is not closed, so it is no constant. -/
theorem folded?_of_isRelational {e : Expr} (h : e.isRelational = true) : e.folded? = none := by
  cases e <;> first | rfl | cases h

/-- Folding goes into a relation. -/
theorem fold_of_isRelational {e : Expr} (h : e.isRelational = true) :
    e.fold = e.mapChildren fold := by
  rw [fold_eq, folded?_of_isRelational h]
  rfl

/-! ### Outcomes -/

/-- The two expressions have one outcome in every environment. -/
def SameOutcome (e e' : Expr) : Prop := ∀ env, e'.evaluate env = e.evaluate env

/-- Lists of expressions with the same outcomes are evaluated alike. -/
theorem mapM_evaluate_congr {es es' : List Expr} (h : List.Forall₂ SameOutcome es es') (env : Env) :
    es'.mapM (evaluate env) = es.mapM (evaluate env) := by
  induction h with
  | nil => rfl
  | cons he _ ih => rw [List.mapM_cons, List.mapM_cons, he env, ih]

/-- A node has the outcome of the node it was, when its subtrees have theirs. -/
theorem Rebuilt.sameOutcome {e e' : Expr} (h : Rebuilt SameOutcome e e') : SameOutcome e e' := by
  intro env
  cases h with
  | member n t he => simp only [evaluate, he env]
  | binary op t hl hr => simp only [evaluate, hl env, hr env]
  | unary op t he => simp only [evaluate, he env]
  | call n t hes => simp only [evaluate, evaluateList_eq, mapM_evaluate_congr hes env]
  -- a constant, a parameter and a column have no subtrees, and no other node is a scalar
  | _ => rfl

/-- A folded expression has the outcome of the expression, be it a value or a failure. -/
theorem evaluate_fold (e : Expr) : SameOutcome e e.fold := by
  induction e using childInduction with
  | h e ih =>
    rcases fold_cases e with ⟨v, hfold, hclosed, _, hv⟩ | ⟨hfold, _⟩
    · intro env
      rw [hfold, evaluate_of_isClosed hclosed, hv]
      rfl
    · rw [hfold]
      exact (rebuilt_mapChildren ih).sameOutcome

/-! ### What is closed stays closed, and nothing else becomes so -/

/-- Arguments that are judged alike are closed alike. -/
theorem Rebuilt.areClosed_eq {es es' : List Expr}
    (h : List.Forall₂ (fun c c' => c'.isClosed = c.isClosed) es es') :
    areClosed es' = areClosed es := by
  induction h with
  | nil => rfl
  | cons hc _ ih => rw [areClosed, areClosed, hc, ih]

/-- Whether a tree is closed is seen at its root and in its subtrees. -/
theorem Rebuilt.isClosed_eq {e e' : Expr}
    (h : Rebuilt (fun c c' => c'.isClosed = c.isClosed) e e') : e'.isClosed = e.isClosed := by
  cases h with
  | member _ _ h | unary _ _ h => exact h
  | binary _ _ hl hr => rw [isClosed, isClosed, hl, hr]
  | call _ _ h => rw [isClosed, isClosed, areClosed_eq h]
  | _ => rfl

/-- Folding closes no expression and opens none. -/
theorem isClosed_fold (e : Expr) : e.fold.isClosed = e.isClosed := by
  induction e using childInduction with
  | h e ih =>
    rcases fold_cases e with ⟨v, hfold, hclosed, _⟩ | ⟨hfold, _⟩
    · rw [hfold, hclosed]
      rfl
    · rw [hfold]
      exact (rebuilt_mapChildren ih).isClosed_eq

/-! ### Nothing is left to fold -/

/-- Every closed expression in the tree is a constant or has no value. -/
def IsFolded (e : Expr) : Prop :=
  ∀ n ∈ e.nodes, n.isClosed = true → n.isConstant = false → NoValue n

/-- The parts of a folded tree are folded. -/
theorem IsFolded.of_mem_children {e c : Expr} (h : IsFolded e) (hc : c ∈ e.children) :
    IsFolded c := fun n hn => h n (mem_nodes_of_mem_children hc hn)

/-- A constant has no children to change, and nothing else becomes one. -/
theorem isConstant_mapChildren (f : Expr → Expr) (e : Expr) :
    (e.mapChildren f).isConstant = e.isConstant := by
  cases e <;> simp [isConstant]

/-- A closed node that has no value has none over folded subtrees. -/
theorem noValue_mapChildren_fold {e : Expr}
    (h : e.isClosed = true → e.isConstant = false → NoValue e)
    (hclosed : (e.mapChildren fold).isClosed = true)
    (hconst : (e.mapChildren fold).isConstant = false) : NoValue (e.mapChildren fold) := by
  have hsame : SameOutcome e (e.mapChildren fold) :=
    (rebuilt_mapChildren fun c _ => evaluate_fold c).sameOutcome
  have hclosed' : e.isClosed = true := by
    rw [← hclosed]
    exact (rebuilt_mapChildren fun c _ => isClosed_fold c).isClosed_eq.symm
  intro env v hv
  rw [isConstant_mapChildren] at hconst
  exact h hclosed' hconst env v ((hsame env).symm.trans hv)

/-- A closed expression of a folded tree is a constant or has no value. -/
theorem isFolded_fold (e : Expr) : IsFolded e.fold := by
  induction e using childInduction with
  | h e ih =>
    intro n hn
    rcases fold_cases e with ⟨v, hfold, _⟩ | ⟨hfold, h⟩
    · rw [hfold] at hn
      obtain rfl := List.mem_singleton.1 hn
      exact fun _ hconst => nomatch hconst
    · rw [hfold, nodes_eq_cons, children_mapChildren, List.mem_cons, List.mem_flatMap] at hn
      rcases hn with rfl | ⟨c', hc', hn⟩
      · -- the root was asked before its subtrees were folded, and is not asked again
        exact noValue_mapChildren_fold h
      · obtain ⟨c, hc, rfl⟩ := List.mem_map.1 hc'
        exact ih c hc n hn

/-! ### From the leaves up -/

/-- Replace a closed node by the constant of its value. -/
def foldNode (e : Expr) : Expr := e.folded?.getD e

/-- A node is folded to its value, or it stays and is no closed expression with a value. -/
theorem foldNode_cases (e : Expr) :
    (∃ v t, e.foldNode = .const v t ∧ e.isClosed = true ∧ e.evaluate .empty = .ok v) ∨
      (e.foldNode = e ∧ (e.isClosed = true → e.isConstant = false → NoValue e)) := by
  rw [foldNode]
  rcases folded?_cases e with ⟨v, hfolded, hclosed, _, hv⟩ | ⟨hfolded, h⟩
  · rw [hfolded]
    exact .inl ⟨v, _, rfl, hclosed, hv⟩
  · rw [hfolded]
    exact .inr ⟨rfl, h⟩

/-- Folding one node keeps its outcome. -/
theorem evaluate_foldNode (e : Expr) (env : Env) : e.foldNode.evaluate env = e.evaluate env := by
  rcases foldNode_cases e with ⟨v, t, hfold, hclosed, hv⟩ | ⟨hfold, _⟩
  · rw [hfold, evaluate_of_isClosed hclosed, hv]
    rfl
  · rw [hfold]

/-- Folding one node improves what a walk over its aggregates leaves of it. -/
theorem improves_foldNode {f : Expr → Except Fault Expr} (hf : ReducesMonotonically f) (e : Expr) :
    Improves f e e.foldNode := by
  rcases foldNode_cases e with ⟨v, t, hfold, hclosed, _⟩ | ⟨hfold, _⟩
  · intro x hx
    rw [transformUpM_of_hasAggregate_eq_false hf (hasAggregate_of_isClosed hclosed)] at hx
    obtain rfl := Except.ok.inj hx
    refine ⟨e.foldNode, ?_, fun env => .of_eq (evaluate_foldNode e env).symm⟩
    rw [hfold]
    exact hf.other _ rfl
  · rw [hfold]
    exact .refl f e

/-- Folding one node improves it, whatever is put in for the parameters. -/
theorem better_foldNode (e : Expr) : Better e e.foldNode := by
  intro f hf bs
  rcases foldNode_cases e with ⟨v, t, hfold, hclosed, _⟩ | ⟨hfold, _⟩
  · have h := improves_foldNode hf e
    rw [hfold] at h ⊢
    rw [substitute_of_isClosed hclosed]
    exact h
  · rw [hfold]
    exact .refl f _

/-- Folding one node neither makes nor loses an aggregate. -/
theorem hasAggregate_foldNode (e : Expr) : e.foldNode.hasAggregate = e.hasAggregate := by
  rcases foldNode_cases e with ⟨v, t, hfold, hclosed, _⟩ | ⟨hfold, _⟩
  · rw [hfold, hasAggregate_of_isClosed hclosed]
    rfl
  · rw [hfold]

/-- The type of a closed expression does not depend on its parts. -/
theorem type_mapChildren_of_isClosed {e : Expr} (h : e.isClosed = true) (f : Expr → Expr) :
    (e.mapChildren f).type = e.type := by
  cases e with
  | const | member | binary | unary | call => simp [type]
  | param | column | aggregate | lambda | scan | filter | project | order | limit | join | setOp =>
    cases h

/-- To fold a node after its subtrees comes to the same as to fold it before them. -/
theorem fold_eq_foldNode (e : Expr) : e.fold = (e.mapChildren fold).foldNode := by
  rcases fold_cases e with ⟨v, hfold, hclosed, hconst, hv⟩ | ⟨hfold, h⟩
  · -- the node over folded subtrees is closed as before, and has the same value and type
    have hclosed' : (e.mapChildren fold).isClosed = true := by
      rw [(rebuilt_mapChildren fun c _ => isClosed_fold c).isClosed_eq, hclosed]
    have hv' : (e.mapChildren fold).evaluate .empty = .ok v := by
      rw [(rebuilt_mapChildren fun c _ => evaluate_fold c).sameOutcome, hv]
    rw [hfold, foldNode, folded?, hclosed', isConstant_mapChildren, hconst, hv',
      type_mapChildren_of_isClosed hclosed]
    rfl
  · rw [hfold, foldNode]
    rcases folded?_cases (e.mapChildren fold) with ⟨v, _, hclosed, hconst, hv⟩ | ⟨hnone, _⟩
    · exact absurd hv (noValue_mapChildren_fold h hclosed hconst .empty v)
    · rw [hnone]
      rfl

/-- Folding is a change of every node after its subtrees. -/
theorem fold_eq_transformUp (e : Expr) : e.fold = e.transformUp foldNode := by
  induction e using childInduction with
  | h e ih => rw [fold_eq_foldNode, transformUp_eq, mapChildren_congr ih]

/-! ### Whole trees -/

/-- A tree with its closed subtrees folded has the values of the tree, whatever the arguments. -/
theorem better_fold (e : Expr) : Better e e.fold := by
  rw [fold_eq_transformUp]
  exact better_transformUp better_foldNode e

/-- Folding improves a tree in which the arguments stand already. -/
theorem improves_fold {f : Expr → Except Fault Expr} (hf : ReducesMonotonically f) (e : Expr) :
    Improves f e e.fold := by
  rw [fold_eq_transformUp]
  exact improves_transformUp hf (improves_foldNode hf) e

/-- A pass that keeps whether a node has aggregates keeps whether a tree has. -/
theorem hasAggregate_transformUp {g : Expr → Expr}
    (hg : ∀ e, (g e).hasAggregate = e.hasAggregate) (e : Expr) :
    (e.transformUp g).hasAggregate = e.hasAggregate := by
  induction e using childInduction with
  | h e ih =>
    rw [transformUp_eq, hg]
    exact (rebuilt_mapChildren ih).hasAggregate_eq

/-- Folding neither makes nor loses an aggregate. -/
theorem hasAggregate_fold (e : Expr) : e.fold.hasAggregate = e.hasAggregate := by
  rw [fold_eq_transformUp]
  exact hasAggregate_transformUp hasAggregate_foldNode e

end Expr

end QueryTree
