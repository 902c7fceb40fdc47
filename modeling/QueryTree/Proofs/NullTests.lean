import QueryTree.Proofs.FoldedForm
import QueryTree.Proofs.Lowering

/-!
# Comparisons with NULL

Lowering turns `x = NULL` and `NULL = x` into the test whether `x` is NULL, and `x <> NULL` into the
opposite test. It sees the comparison only after folding, and a closed comparison is folded: there
NULL on one side makes the result NULL. So what the comparison means depends on whether `x` is
closed (`evaluate_lower_againstNull`).

An expression that is not closed is not a literal after lowering either (`isClosed_lower`), so the
literal NULL ends up on the right, where the test is made from it.
-/

namespace QueryTree

open Attempt

namespace Expr

/-! ### What is closed stays closed, and nothing else becomes so -/

/-- An expression without relational nodes. -/
def isScalar (e : Expr) : Bool := !e.any isRelational

/-- A scalar has scalars only below it. -/
theorem isScalar_iff {e : Expr} :
    e.isScalar = true ↔ e.isRelational = false ∧ ∀ c ∈ e.children, c.isScalar = true := by
  simp only [isScalar, Bool.not_eq_true', any_eq isRelational e, Bool.or_eq_false_iff,
    List.any_eq_false, Bool.not_eq_true]

section Walk

variable {g : Expr → Expr}

/-- A walk whose steps keep scalars keeps them. -/
theorem isScalar_transformUp (hg : ∀ e : Expr, e.isScalar = true → (g e).isScalar = true) {e : Expr}
    (he : e.isScalar = true) : (e.transformUp g).isScalar = true := by
  induction e using childInduction with
  | h e ih =>
    rw [isScalar_iff] at he
    rw [transformUp_eq]
    refine hg _ (isScalar_iff.2 ⟨?_, ?_⟩)
    · have hrebuilt : Rebuilt (fun _ _ => True) e (e.mapChildren (transformUp g)) :=
        rebuilt_mapChildren fun _ _ => trivial
      exact hrebuilt.isRelational_eq.trans he.1
    · rw [children_mapChildren, List.forall_mem_map]
      exact fun c hc => ih c hc (he.2 c hc)

/-- A walk that keeps each node closed or open does so to the whole. -/
theorem isClosed_transformUp (hg : ∀ e : Expr, e.isRelational = false → (g e).isClosed = e.isClosed)
    {e : Expr} (he : e.isScalar = true) : (e.transformUp g).isClosed = e.isClosed := by
  induction e using childInduction with
  | h e ih =>
    rw [isScalar_iff] at he
    have hrebuilt : Rebuilt (fun c c' => c'.isClosed = c.isClosed) e
        (e.mapChildren (transformUp g)) := rebuilt_mapChildren fun c hc => ih c hc (he.2 c hc)
    rw [transformUp_eq, hg _ (hrebuilt.isRelational_eq.trans he.1), hrebuilt.isClosed_eq]

end Walk

/-- Folding one node of a scalar leaves a scalar. -/
theorem isScalar_foldNode {e : Expr} (he : e.isScalar = true) : e.foldNode.isScalar = true := by
  rcases foldNode_cases e with ⟨v, t, hfold, _⟩ | ⟨hfold, _⟩
  · rw [hfold]
    rfl
  · rwa [hfold]

/-- An ordered comparison is lowered to something closed if its operands are. -/
theorem isClosed_lowerOrdered (op : BinaryOperator) (l r : Expr) (t : LogicalType) :
    (lowerOrdered op l r t).isClosed = (l.isClosed && r.isClosed) := by
  have hnull : r.isNullLiteral = true → l.isClosed = (l.isClosed && r.isClosed) := by
    intro hr
    obtain ⟨t', rfl⟩ := eq_of_isNullLiteral hr
    exact (Bool.and_true _).symm
  unfold lowerOrdered
  split
  · split
    next hr => exact hnull hr
    next => rfl
  · split
    next hr => exact hnull hr
    next => rfl
  · rfl

/-- So is any comparison. -/
theorem isClosed_lowerComparison (op : BinaryOperator) (l r : Expr) (t : LogicalType) :
    (lowerComparison op l r t).isClosed = (l.isClosed && r.isClosed) := by
  unfold lowerComparison
  split
  · split
    · rw [isClosed_lowerOrdered, Bool.and_comm]
    · exact isClosed_lowerOrdered ..
  · exact isClosed_lowerOrdered ..

/-- A conjunction is lowered to something closed exactly if its operands are. -/
theorem isClosed_lowerAnd (l r : Expr) (t : LogicalType) :
    (lowerAnd l r t).isClosed = (l.isClosed && r.isClosed) := by
  unfold lowerAnd
  split
  next hl =>
    obtain ⟨t', rfl⟩ := eq_of_isTrue hl
    exact (Bool.true_and _).symm
  next =>
    split
    next hr =>
      obtain ⟨t', rfl⟩ := eq_of_isTrue hr
      exact (Bool.and_true _).symm
    next => rfl

/-- A negation is lowered to something closed exactly if its operand is. -/
theorem isClosed_lowerNot (e : Expr) (t : LogicalType) : (lowerNot e t).isClosed = e.isClosed := by
  unfold lowerNot
  split <;> rfl

/-- A filter and an ordering can give way to their input, which may be closed. No other node can. -/
theorem isClosed_lowerNode {e : Expr} (he : e.isRelational = false) :
    e.lowerNode.isClosed = e.isClosed := by
  unfold lowerNode
  split
  next => cases he
  next => cases he
  next op l r t =>
    split
    · exact isClosed_lowerAnd l r t
    · split
      · exact isClosed_lowerComparison op l r t
      · rfl
  next e t => exact isClosed_lowerNot e t
  next => rfl

/-- Lowering neither closes nor opens a scalar. -/
theorem isClosed_lower {e : Expr} (he : e.isScalar = true) : e.lower.isClosed = e.isClosed := by
  have hfold : e.fold.isScalar = true := by
    rw [fold_eq_transformUp]
    exact isScalar_transformUp (fun _ => isScalar_foldNode) he
  rw [lower, isClosed_transformUp (fun _ => isClosed_lowerNode) hfold, isClosed_fold e]

/-! ### The value of a lowered expression -/

/-- Putting in no arguments changes nothing. -/
theorem substitute_nil (e : Expr) : e.substitute [] = e := by
  induction e using childInduction with
  | h e ih =>
    rcases substitute_cases [] e with ⟨n, t, rfl⟩ | ⟨ps, b, rfl⟩ | h
    · rfl
    · have hbody : b.substitute [] = b := ih b (List.mem_singleton.2 rfl)
      rw [substitute, Bindings.shadow, List.filter_nil, hbody]
    · rw [h, mapChildren_congr (g := id) ih, mapChildren_id]

/-- A value that an expression has is its value after lowering. -/
theorem evaluate_lower {e : Expr} (hnull : e.fold.any comparesNull = false) {env : Env} {v : Value}
    (hv : e.evaluate env = .ok v) : e.lower.evaluate env = .ok v := by
  obtain ⟨x, hx, hbelow⟩ := better_lower hnull .ok reducesMonotonically_ok [] e (by
    rw [substitute_nil]
    exact transformUpM_ok e)
  rw [substitute_nil, transformUpM_ok] at hx
  obtain rfl := Except.ok.inj hx
  exact hbelow env v hv

/-- A closed expression with a value is lowered to that value. -/
theorem lower_of_isClosed {e : Expr} (hclosed : e.isClosed = true) {env : Env} {v : Value}
    (hv : e.evaluate env = .ok v) : ∃ t, e.lower = .const v t := by
  have hfold : e.fold.evaluate env = .ok v := (evaluate_fold e env).trans hv
  have hconst : e.fold.isConstant = true := by
    by_contra hconst
    have hclosed' : e.fold.isClosed = true := (isClosed_fold e).trans hclosed
    exact (isFolded_fold e).noValue hclosed' (Bool.eq_false_iff.2 hconst) env v hfold
  unfold isConstant at hconst
  split at hconst
  next w t hw =>
    rw [hw] at hfold
    obtain rfl := Except.ok.inj hfold
    exact ⟨t, by rw [lower, hw]; rfl⟩
  next => cases hconst

/-! ### Comparisons -/

/-- The two ways to compare an expression with the literal NULL. -/
def againstNull (op : BinaryOperator) (x : Expr) (t t' : LogicalType) : List Expr :=
  [binary op x (.const .null t') t, binary op (.const .null t') x t]

section AgainstNull

variable {op : BinaryOperator} {x : Expr} {env : Env} {v : Value} {t t' : LogicalType}

/-- NULL on one side makes a comparison NULL, as long as the other side has a value. -/
theorem evaluate_againstNull (hop : op = .eq ∨ op = .notEq) (hx : x.evaluate env = .ok v) :
    ∀ e ∈ againstNull op x t t', e.evaluate env = .ok .null := by
  have hdecided : ∀ u, Scalar.decided? op u = none := by
    rcases hop with rfl | rfl <;> exact fun _ => rfl
  have hright : ∀ u, Scalar.binary op u .null = .ok .null := by
    rcases hop with rfl | rfl <;> intro u <;> cases u <;> rfl
  have hleft : ∀ u, Scalar.binary op .null u = .ok .null := by
    rcases hop with rfl | rfl <;> exact fun _ => rfl
  have hnull : (const .null t').evaluate env = .ok .null := rfl
  refine List.forall_mem_cons.2 ⟨?_, List.forall_mem_singleton.2 ?_⟩
  · exact evaluate_binary_eq_ok_iff.2 ⟨v, hx, .inr ⟨hdecided v, .null, hnull, hright v⟩⟩
  · exact evaluate_binary_eq_ok_iff.2 ⟨.null, hnull, .inr ⟨hdecided .null, v, hx, hleft v⟩⟩

/-- Where the other side is closed the comparison is folded, and the null test is never made. -/
theorem evaluate_lower_againstNull_of_isClosed (hop : op = .eq ∨ op = .notEq)
    (hclosed : x.isClosed = true) (hx : x.evaluate env = .ok v) :
    ∀ e ∈ againstNull op x t t', e.lower.evaluate env = .ok .null := by
  intro e he
  have hclosed' : e.isClosed = true := by
    rcases List.mem_pair.1 he with rfl | rfl <;> simp [isClosed, hclosed]
  obtain ⟨t'', hlower⟩ := lower_of_isClosed hclosed' (evaluate_againstNull hop hx e he)
  rw [hlower]
  rfl

/-- A binary operator that is not closed is lowered from its lowered sides. -/
theorem lower_binary {l r : Expr} (hopen : (binary op l r t).isClosed = false) :
    (binary op l r t).lower = lowerNode (.binary op l.lower r.lower t) := by
  have hfold : (binary op l r t).fold = binary op l.fold r.fold t := by
    rcases fold_cases (binary op l r t) with ⟨v, _, hclosed, _⟩ | ⟨hfold, _⟩
    · exact absurd (hopen.symm.trans hclosed) Bool.false_ne_true
    · rw [hfold, mapChildren_binary]
  rw [lower, hfold, transformUp_eq, mapChildren_binary]
  rfl

/-- The null test that an equality with NULL stands for. -/
def nullTest : BinaryOperator → UnaryOperator
  | .eq => .isNull
  | _ => .isNotNull

/-- The literal ends up on the right, and the comparison becomes a null test of the left side. -/
theorem lowerNode_againstNull (hop : op = .eq ∨ op = .notEq) (hx : x.isConstant = false) :
    ∀ e ∈ againstNull op x t t', e.lowerNode = mkUnary (nullTest op) x := by
  have hliteral : (const .null t').isConstant = true := rfl
  have hordered : lowerOrdered op x (.const .null t') t = mkUnary (nullTest op) x := by
    rcases hop with rfl | rfl <;> rfl
  have hcomparison : ∀ l r, lowerNode (.binary op l r t) =
      if l.isConstant && !r.isConstant then lowerOrdered op r l t else lowerOrdered op l r t := by
    rcases hop with rfl | rfl <;> exact fun _ _ => rfl
  refine List.forall_mem_cons.2 ⟨?_, List.forall_mem_singleton.2 ?_⟩
  · rw [hcomparison, hx, Bool.false_and, if_neg Bool.false_ne_true, hordered]
  · rw [hcomparison, hx, hliteral, Bool.not_false, Bool.true_and, if_pos rfl, hordered]

/-- What reads something is not lowered to a constant. -/
theorem isConstant_lower_eq_false (hscalar : x.isScalar = true) (hopen : x.isClosed = false) :
    x.lower.isConstant = false := by
  rw [← isClosed_lower hscalar] at hopen
  generalize x.lower = y at hopen ⊢
  cases y <;> first | rfl | cases hopen

/-- Where the other side is not closed the comparison becomes a null test of it. -/
theorem lower_againstNull_of_isOpen (hop : op = .eq ∨ op = .notEq) (hscalar : x.isScalar = true)
    (hopen : x.isClosed = false) :
    ∀ e ∈ againstNull op x t t', e.lower = mkUnary (nullTest op) x.lower := by
  have hlower : (const .null t').lower = .const .null t' := rfl
  have hplain : ∀ e ∈ againstNull op x.lower t t', e.lowerNode = mkUnary (nullTest op) x.lower :=
    lowerNode_againstNull hop (isConstant_lower_eq_false hscalar hopen)
  refine List.forall_mem_cons.2 ⟨?_, List.forall_mem_singleton.2 ?_⟩
  · rw [lower_binary (by simp [isClosed, hopen]), hlower]
    exact hplain _ List.mem_cons_self
  · rw [lower_binary (by simp [isClosed, hopen]), hlower]
    exact hplain _ (List.mem_cons_of_mem _ List.mem_cons_self)

/-- What a comparison of a scalar with the literal NULL means after lowering. Of an expression that
reads something it is a null test, from either side. A closed expression makes it NULL, whatever
its own value is. -/
theorem evaluate_lower_againstNull (hscalar : x.isScalar = true)
    (hnull : x.fold.any comparesNull = false) (hx : x.evaluate env = .ok v) (t t' : LogicalType) :
    (x.isClosed = false →
      (∀ e ∈ againstNull .eq x t t', e.lower.evaluate env = .ok (.bool v.isNull)) ∧
        ∀ e ∈ againstNull .notEq x t t', e.lower.evaluate env = .ok (.bool !v.isNull)) ∧
      (x.isClosed = true → ∀ op, op = .eq ∨ op = .notEq →
        ∀ e ∈ againstNull op x t t', e.lower.evaluate env = .ok .null) := by
  refine ⟨fun hopen => ⟨fun e he => ?_, fun e he => ?_⟩, fun hclosed op hop =>
    evaluate_lower_againstNull_of_isClosed hop hclosed hx⟩
  · rw [lower_againstNull_of_isOpen (.inl rfl) hscalar hopen e he, mkUnary, evaluate,
      evaluate_lower hnull hx]
    rfl
  · rw [lower_againstNull_of_isOpen (.inr rfl) hscalar hopen e he, mkUnary, evaluate,
      evaluate_lower hnull hx]
    rfl

end AgainstNull

/-- A number from a row, plus one. -/
def incremented : Expr := .binary .plus (.column "t" "a" .int64) (.const (.int 1) .int64) .int64

/-- A column and one more, tested for NULL in all four ways. -/
theorem evaluate_lower_againstNull_incremented :
    let env : Env := ⟨fun _ => none, fun _ _ => some .null⟩
    (incremented.isScalar = true ∧ incremented.fold.any comparesNull = false ∧
      incremented.evaluate env = .ok .null ∧ incremented.isClosed = false) ∧
      (∀ e ∈ againstNull .eq incremented .bool .int64, e.lower.evaluate env = .ok (.bool true)) ∧
        ∀ e ∈ againstNull .notEq incremented .bool .int64,
          e.lower.evaluate env = .ok (.bool false) := by
  intro env
  have hvalue : incremented.evaluate env = .ok .null := rfl
  exact ⟨⟨rfl, rfl, hvalue, rfl⟩,
    (evaluate_lower_againstNull rfl rfl hvalue .bool .int64).1 rfl⟩

/-- `5 = NULL` is NULL after lowering, where a null test is `FALSE`. And `(t.a = 1 + NULL) = NULL`
is `FALSE` although its left side is NULL: folding makes a literal of `1 + NULL`, so the comparison
on the left becomes a null test too and is not NULL any more. -/
theorem lower_five_eq_null :
    let null : Expr := .const .null .int64
    let unknown : Expr :=
      .binary .eq (.column "t" "a" .int64) (.binary .plus (.const (.int 1) .int64) null .int64) .bool
    let env : Env := ⟨fun _ => none, fun _ _ => some (.int 1)⟩
    (binary .eq (.const (.int 5) .int64) null .bool).lower.evaluate env = .ok .null ∧
      unknown.any comparesNull = false ∧ unknown.evaluate env = .ok .null ∧
        (binary .eq unknown null .bool).lower.evaluate env = .ok (.bool false) :=
  ⟨rfl, rfl, rfl, rfl⟩

end Expr

end QueryTree
