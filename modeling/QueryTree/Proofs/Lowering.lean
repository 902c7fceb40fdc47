import QueryTree.Pass.Lowering
import QueryTree.Proofs.Folding
import QueryTree.Proofs.ValueOrder

/-!
# Lowering keeps the values of expressions

Each simplification of the lowering pass makes the node better that it changes: a conjunct `TRUE`
adds only a failure, and so does a double negation; a comparison has the same result from the other
side. The one exception is equality with a literal NULL, which has no truth value and becomes a test
that has one (`comparesNull`).

A tree without such a comparison is better after lowering when it was folded before
(`better_lower`). That it was folded matters, since lowering can make new literals of NULL out of a
conjunct `TRUE` or a double negation. After folding, what becomes a literal NULL was one before or
has no value at all (`literalOrDead`), and then the comparison with it has none either.
-/

namespace QueryTree

open Attempt

/-! ### Operators on values -/

namespace Scalar

/-- A true side leaves a conjunction to the other. -/
theorem eq_of_conjunction_true_left {w v : Value} (h : conjunction (.bool true) w = .ok v) :
    w = v := by
  cases w with
  | null => exact Except.ok.inj h
  | bool b => cases b <;> exact Except.ok.inj h
  | _ => cases h

/-- A true side leaves a conjunction to the other. -/
theorem eq_of_conjunction_true_right {w v : Value} (h : conjunction w (.bool true) = .ok v) :
    w = v := by
  cases w with
  | null => exact Except.ok.inj h
  | bool b => cases b <;> exact Except.ok.inj h
  | _ => cases h

/-- Two negations of a value, where they are defined, give it back. -/
theorem eq_of_not_not {w u v : Value} (hu : unary .not w = .ok u) (hv : unary .not u = .ok v) :
    w = v := by
  cases w with
  | null =>
    obtain rfl := Except.ok.inj hu
    exact Except.ok.inj hv
  | bool b =>
    obtain rfl := Except.ok.inj hu
    cases b <;> exact Except.ok.inj hv
  | _ => cases hu

/-- Only FALSE decides a conjunction by itself. -/
theorem eq_false_of_decided?_and {w v : Value} (h : decided? .and w = some v) :
    w = .bool false ∧ v = .bool false := by
  cases w with
  | bool b =>
    cases b with
    | false => exact ⟨rfl, (Option.some.inj h).symm⟩
    | true => cases h
  | _ => cases h

/-- An operator that can be turned round needs both its operands. -/
theorem decided?_of_flipped {op op' : BinaryOperator} (h : op.flipped? = some op') (v : Value) :
    decided? op v = none := by
  cases op <;> first | rfl | cases h

/-- A comparison from the other side has the same result. -/
theorem comparison_flipped {op op' : BinaryOperator} (h : op.flipped? = some op') (l r : Value) :
    Below (comparison op l r) (comparison op' r l) := by
  intro v hv
  rw [comparison] at hv ⊢
  rw [Value.sqlCompare?_swap l r]
  cases ho : l.sqlCompare? r with
  | none => rw [ho] at hv; cases hv
  | some o =>
    rw [ho] at hv
    obtain rfl := Except.ok.inj hv
    cases op <;> cases h <;> cases o <;> rfl

/-- A comparison turned round compares alike. -/
theorem binary_flipped {op op' : BinaryOperator} (h : op.flipped? = some op') (l r : Value) :
    Below (binary op l r) (binary op' r l) := by
  have hunfold : ∀ {op op' : BinaryOperator}, op.flipped? = some op' → ∀ l r : Value,
      binary op l r = if l.isNull || r.isNull then .ok .null else comparison op l r := by
    intro op op' h l r
    cases op <;> first | rfl | cases h
  have hback : op'.flipped? = some op := by
    cases op <;> cases h <;> rfl
  rw [hunfold h, hunfold hback, Bool.or_comm r.isNull]
  split
  · exact .refl _
  · exact comparison_flipped h l r

end Scalar

namespace Expr

/-! ### Better operators -/

section Operators

variable {f : Expr → Except Fault Expr}

/-- A walk over aggregates goes into both operands and leaves the operator. -/
theorem transformUpM_binary_eq_ok_iff (hf : ReducesMonotonically f) {op : BinaryOperator}
    {l r x : Expr} {t : LogicalType} :
    (binary op l r t).transformUpM f = .ok x ↔
      ∃ l' r', l.transformUpM f = .ok l' ∧ r.transformUpM f = .ok r' ∧ x = binary op l' r' t := by
  rw [transformUpM_eq_ok_iff]
  constructor
  · rintro ⟨y, hy, hx⟩
    cases hy with
    | binary _ _ hl hr =>
      rw [hf.other _ rfl] at hx
      exact ⟨_, _, hl, hr, (Except.ok.inj hx).symm⟩
  · rintro ⟨l', r', hl, hr, rfl⟩
    exact ⟨_, .binary op t hl hr, hf.other _ rfl⟩

/-- A walk over aggregates goes into the operand and leaves the operator. -/
theorem transformUpM_unary_eq_ok_iff (hf : ReducesMonotonically f) {op : UnaryOperator}
    {e x : Expr} {t : LogicalType} :
    (unary op e t).transformUpM f = .ok x ↔
      ∃ e', e.transformUpM f = .ok e' ∧ x = unary op e' t := by
  rw [transformUpM_eq_ok_iff]
  constructor
  · rintro ⟨y, hy, hx⟩
    cases hy with
    | unary _ _ he =>
      rw [hf.other _ rfl] at hx
      exact ⟨_, he, (Except.ok.inj hx).symm⟩
  · rintro ⟨e', he, rfl⟩
    exact ⟨_, .unary op t he, hf.other _ rfl⟩

/-- A true literal is the constant TRUE, of any type. -/
theorem eq_of_isTrue {e : Expr} (h : e.isTrue = true) : ∃ t, e = .const (.bool true) t := by
  unfold isTrue at h
  split at h
  · exact ⟨_, rfl⟩
  · cases h

/-- A literal NULL is the constant NULL, of any type. -/
theorem eq_of_isNullLiteral {e : Expr} (h : e.isNullLiteral = true) : ∃ t, e = .const .null t := by
  unfold isNullLiteral at h
  split at h
  · exact ⟨_, rfl⟩
  · cases h

/-- A walk over aggregates leaves a constant. -/
theorem transformUpM_const (hf : ReducesMonotonically f) (v : Value) (t : LogicalType) :
    (const v t).transformUpM f = .ok (const v t) := hf.other _ rfl

/-- Dropping a literal TRUE on the left improves a conjunction. -/
theorem better_and_true_left (l r : Expr) (t : LogicalType) (hl : l.isTrue = true) :
    Better (binary .and l r t) r := by
  obtain ⟨t', rfl⟩ := eq_of_isTrue hl
  intro f hf bs x hx
  obtain ⟨l', r', hl', hr', rfl⟩ := (transformUpM_binary_eq_ok_iff hf).1 hx
  rw [substitute, transformUpM_const hf] at hl'
  obtain rfl := Except.ok.inj hl'
  refine ⟨r', hr', fun env v hv => ?_⟩
  obtain ⟨u, hu, h⟩ := evaluate_binary_eq_ok_iff.1 hv
  obtain rfl := Except.ok.inj hu
  rcases h with hdecided | ⟨_, w, hw, hv⟩
  · cases hdecided
  · rw [hw, Scalar.eq_of_conjunction_true_left hv]

/-- Dropping a literal TRUE on the right improves a conjunction. -/
theorem better_and_true_right (l r : Expr) (t : LogicalType) (hr : r.isTrue = true) :
    Better (binary .and l r t) l := by
  obtain ⟨t', rfl⟩ := eq_of_isTrue hr
  intro f hf bs x hx
  obtain ⟨l', r', hl', hr', rfl⟩ := (transformUpM_binary_eq_ok_iff hf).1 hx
  rw [substitute, transformUpM_const hf] at hr'
  obtain rfl := Except.ok.inj hr'
  refine ⟨l', hl', fun env v hv => ?_⟩
  obtain ⟨u, hu, h⟩ := evaluate_binary_eq_ok_iff.1 hv
  rw [hu]
  rcases h with hdecided | ⟨_, w, hw, hv⟩
  · obtain ⟨rfl, rfl⟩ := Scalar.eq_false_of_decided?_and hdecided
    rfl
  · obtain rfl := Except.ok.inj hw
    rw [Scalar.eq_of_conjunction_true_right hv]

/-- Dropping two negations improves an expression. -/
theorem better_not_not (e : Expr) (t t' : LogicalType) :
    Better (unary .not (unary .not e t') t) e := by
  intro f hf bs x hx
  obtain ⟨y, hy, rfl⟩ := (transformUpM_unary_eq_ok_iff hf).1 hx
  obtain ⟨z, hz, rfl⟩ := (transformUpM_unary_eq_ok_iff hf).1 hy
  refine ⟨z, hz, fun env v hv => ?_⟩
  rw [evaluate, bind_eq_ok_iff] at hv
  obtain ⟨u, hu, hv⟩ := hv
  rw [evaluate, bind_eq_ok_iff] at hu
  obtain ⟨w, hw, hu⟩ := hu
  rw [hw, Scalar.eq_of_not_not hu hv]

/-- A comparison is as good from the other side. -/
theorem better_flipped {op op' : BinaryOperator} (h : op.flipped? = some op') (l r : Expr)
    (t : LogicalType) : Better (binary op l r t) (binary op' r l t) := by
  intro f hf bs x hx
  obtain ⟨l', r', hl', hr', rfl⟩ := (transformUpM_binary_eq_ok_iff hf).1 hx
  refine ⟨_, (transformUpM_binary_eq_ok_iff hf).2 ⟨r', l', hr', hl', rfl⟩, fun env v hv => ?_⟩
  have hback : op'.flipped? = some op := by
    cases op <;> cases h <;> rfl
  obtain ⟨u, hu, hv⟩ := evaluate_binary_eq_ok_iff.1 hv
  rw [Scalar.decided?_of_flipped h] at hv
  rcases hv with hv | ⟨_, w, hw, hv⟩
  · cases hv
  · exact evaluate_binary_eq_ok_iff.2 ⟨w, hw, .inr
      ⟨Scalar.decided?_of_flipped hback w, u, hu, Scalar.binary_flipped h u w v hv⟩⟩

end Operators

/-! ### Expressions without a value -/

/-- Whatever is put in for the parameters, what is left after aggregates are computed has no value.
-/
def Dead (e : Expr) : Prop :=
  ∀ f, ReducesMonotonically f → ∀ bs x, (e.substitute bs).transformUpM f = .ok x → NoValue x

/-- Arguments do not make a relation of a scalar, nor the other way. -/
theorem isRelational_substitute (bs : Bindings) (e : Expr) :
    (e.substitute bs).isRelational = e.isRelational := by
  cases e with
  | param n t => rw [substitute]; cases bs.find? n <;> rfl
  | _ => rfl

/-- A relation never has a value. -/
theorem dead_of_isRelational {e : Expr} (h : e.isRelational = true) : Dead e := by
  intro f hf bs x hx
  obtain ⟨y, hy, hx⟩ := transformUpM_eq_ok_iff.1 hx
  have hy' : y.isRelational = true :=
    hy.isRelational_eq.trans ((isRelational_substitute bs e).trans h)
  have hother : y.isAggregate = false := by
    cases y <;> first | rfl | cases hy'
  rw [hf.other y hother] at hx
  obtain rfl := Except.ok.inj hx
  exact noValue_of_isRelational hy'

/-- An operator has no value over an operand without one. -/
theorem Dead.unary {e : Expr} (h : Dead e) (op : UnaryOperator) (t : LogicalType) :
    Dead (unary op e t) := by
  intro f hf bs x hx env v hv
  obtain ⟨e', he', rfl⟩ := (transformUpM_unary_eq_ok_iff hf).1 hx
  rw [evaluate, bind_eq_ok_iff] at hv
  obtain ⟨u, hu, _⟩ := hv
  exact h f hf bs e' he' env u hu

/-- A binary operator has no value if its left operand has none. -/
theorem Dead.binary_left {l : Expr} (h : Dead l) (op : BinaryOperator) (r : Expr)
    (t : LogicalType) : Dead (binary op l r t) := by
  intro f hf bs x hx env v hv
  obtain ⟨l', r', hl', _, rfl⟩ := (transformUpM_binary_eq_ok_iff hf).1 hx
  obtain ⟨u, hu, _⟩ := evaluate_binary_eq_ok_iff.1 hv
  exact h f hf bs l' hl' env u hu

/-- The right side counts when the left one never decides. -/
theorem Dead.binary_right {r : Expr} (h : Dead r) {op : BinaryOperator} {l : Expr}
    (hl : ∀ f, ReducesMonotonically f → ∀ bs x, (l.substitute bs).transformUpM f = .ok x →
      ∀ env u, x.evaluate env = .ok u → Scalar.decided? op u = none) (t : LogicalType) :
    Dead (binary op l r t) := by
  intro f hf bs x hx env v hv
  obtain ⟨l', r', hl', hr', rfl⟩ := (transformUpM_binary_eq_ok_iff hf).1 hx
  obtain ⟨u, hu, hv⟩ := evaluate_binary_eq_ok_iff.1 hv
  rw [hl f hf bs l' hl' env u hu] at hv
  rcases hv with hv | ⟨_, w, hw, _⟩
  · cases hv
  · exact h f hf bs r' hr' env w hw

/-- Next to a literal that does not decide, the right side counts. -/
theorem Dead.and_const {r : Expr} (h : Dead r) {v : Value} (hv : v = .null ∨ v = .bool true)
    (t t' : LogicalType) : Dead (.binary .and (.const v t') r t) := by
  refine h.binary_right (fun f hf bs x hx env u hu => ?_) t
  rw [substitute, transformUpM_const hf] at hx
  obtain rfl := Except.ok.inj hx
  obtain rfl := Except.ok.inj hu
  rcases hv with rfl | rfl <;> rfl

/-- Anything is better than an expression without a value, as long as its aggregates can be
computed. -/
theorem Dead.better {e e' : Expr} (h : Dead e)
    (he' : ∀ f, ReducesMonotonically f → ∀ bs x, (e.substitute bs).transformUpM f = .ok x →
      ∃ x', (e'.substitute bs).transformUpM f = .ok x') : Better e e' := by
  intro f hf bs x hx
  obtain ⟨x', hx'⟩ := he' f hf bs x hx
  exact ⟨x', hx', (h f hf bs x hx).evalBelow x'⟩

/-! ### What becomes a literal -/

/-- Negations, any number of them, of a constant. -/
inductive NegationsOf (v : Value) : Expr → Prop
  | const (t) : NegationsOf v (.const v t)
  | not {e} (t) : NegationsOf v e → NegationsOf v (.unary .not e t)

/-- A closed expression that folding has left has no value. -/
theorem IsFolded.noValue {e : Expr} (h : IsFolded e) (hclosed : e.isClosed = true)
    (hconst : e.isConstant = false) : NoValue e := h e (mem_nodes_self e) hclosed hconst

/-- In a folded tree no negation of these literals is left, and no conjunction of them. -/
theorem IsFolded.not_const {v : Value} (hv : v = .null ∨ v = .bool true) {t t' : LogicalType} :
    ¬ IsFolded (unary .not (.const v t) t') := by
  intro h
  rcases hv with rfl | rfl
  · exact h.noValue rfl rfl .empty .null rfl
  · exact h.noValue rfl rfl .empty (.bool false) rfl

/-- A conjunction of two literals would have been folded. -/
theorem IsFolded.not_and_const {v w : Value} (hv : v = .null ∨ v = .bool true)
    (hw : w = .null ∨ w = .bool true) {t t' t'' : LogicalType} :
    ¬ IsFolded (binary .and (.const v t) (.const w t') t'') := by
  intro h
  rcases hv with rfl | rfl <;> rcases hw with rfl | rfl
  · exact h.noValue rfl rfl .empty .null rfl
  · exact h.noValue rfl rfl .empty .null rfl
  · exact h.noValue rfl rfl .empty .null rfl
  · exact h.noValue rfl rfl .empty (.bool true) rfl

/-- A comparison is never lowered to a literal. -/
theorem not_negationsOf_lowerComparison {v : Value} (op : BinaryOperator) (l r : Expr)
    (t : LogicalType) : ¬ NegationsOf v (lowerComparison op l r t) := by
  have hordered : ∀ op l r, ¬ NegationsOf v (lowerOrdered op l r t) := by
    intro op l r h
    unfold lowerOrdered at h
    split at h
    · split at h <;> cases h
    · split at h <;> cases h
    · cases h
  intro h
  unfold lowerComparison at h
  split at h
  · split at h
    · exact hordered _ _ _ h
    · exact hordered _ _ _ h
  · exact hordered _ _ _ h

/-- If lowering turns the expression into NULL or `TRUE`, or into negations of it, then it was that
literal before, or it has no value. -/
def LiteralOrDead (e : Expr) : Prop :=
  ∀ v, v = .null ∨ v = .bool true → NegationsOf v (e.transformUp lowerNode) →
    (∃ t, e = .const v t) ∨ Dead e

/-- A true literal is a negation, none at all, of TRUE. -/
theorem negationsOf_true {e : Expr} (h : e.isTrue = true) : NegationsOf (.bool true) e := by
  obtain ⟨t, heq⟩ := eq_of_isTrue h
  exact heq ▸ .const t

/-- A conjunction becomes a literal when one side becomes `TRUE` and the other that literal. If both
were literals before, it was folded away. -/
theorem LiteralOrDead.and {l r : Expr} {t : LogicalType} (hl : LiteralOrDead l)
    (hr : LiteralOrDead r) (he : IsFolded (.binary .and l r t)) :
    LiteralOrDead (.binary .and l r t) := by
  intro v hv h
  have hdead : ∀ {w u : Value}, (w = .null ∨ w = .bool true) → (u = .null ∨ u = .bool true) →
      NegationsOf w (l.transformUp lowerNode) → NegationsOf u (r.transformUp lowerNode) →
      Dead (.binary .and l r t) := by
    intro w u hw hu hwl hur
    rcases hl w hw hwl with ⟨tl, rfl⟩ | hdead
    · rcases hr u hu hur with ⟨tr, rfl⟩ | hdead
      · exact absurd he (IsFolded.not_and_const hw hu)
      · exact hdead.and_const hw t tl
    · exact hdead.binary_left .and r t
  rw [transformUp_eq, mapChildren_binary, lowerNode, if_pos rfl, lowerAnd] at h
  right
  split at h
  next htrue => exact hdead (.inr rfl) hv (negationsOf_true htrue) h
  next =>
    split at h
    next htrue => exact hdead hv (.inr rfl) h (negationsOf_true htrue)
    next => cases h

/-- A negation in a folded tree that lowering makes a literal has no value. -/
theorem LiteralOrDead.not {e : Expr} {t : LogicalType} (h : LiteralOrDead e)
    (he : IsFolded (.unary .not e t)) : LiteralOrDead (.unary .not e t) := by
  intro v hv hneg
  rw [transformUp_eq, mapChildren_unary, lowerNode] at hneg
  unfold lowerNot at hneg
  right
  split at hneg
  next inner t' heq =>
    -- the negation below is cancelled, so what is below it is dead and no literal
    rcases h v hv (heq ▸ .not t' hneg) with ⟨te, rfl⟩ | hdead
    · cases heq
    · exact hdead.unary .not t
  next =>
    cases hneg with
    | not _ hneg =>
      rcases h v hv hneg with ⟨te, rfl⟩ | hdead
      · exact absurd he (IsFolded.not_const hv)
      · exact hdead.unary .not t

/-- In a folded tree, what lowering makes a literal was one or has no value. By induction on the
tree. Only conjunctions and negations can become literals; if their operands were literals before,
folding would have left no operator. -/
theorem literalOrDead {e : Expr} (he : IsFolded e) : LiteralOrDead e := by
  induction e using treeInduction with
  | const w t =>
    intro v _ h
    cases h
    exact .inl ⟨t, rfl⟩
  | scan | filter | project | order | limit | join | setOp =>
    exact fun _ _ _ => .inr (dead_of_isRelational rfl)
  | binary op l r t ihl ihr =>
    by_cases hop : op = .and
    · subst hop
      exact .and (ihl (he.of_mem_children (by simp [children])))
        (ihr (he.of_mem_children (by simp [children]))) he
    · intro v _ h
      rw [transformUp_eq, mapChildren_binary, lowerNode, if_neg hop] at h
      split at h
      · exact absurd h (not_negationsOf_lowerComparison op _ _ t)
      · cases h
  | unary op e t ih =>
    cases op with
    | not => exact (ih (he.of_mem_children (by simp [children]))).not he
    | negate | isNull | isNotNull =>
      intro v _ h
      rw [transformUp_eq, mapChildren_unary] at h
      cases h
  | param | column | member | lambda =>
    intro v _ h
    rw [transformUp_eq] at h
    cases h
  | call n es t _ =>
    intro v _ h
    rw [transformUp_eq, mapChildren_call] at h
    cases h
  | aggregate f a d t _ =>
    intro v _ h
    rw [transformUp_eq, mapChildren_aggregate] at h
    cases h

/-! ### One node -/

/-- The node tests equality with a literal NULL. -/
def comparesNull : Expr → Bool
  | binary .eq l r _ | binary .notEq l r _ => l.isNullLiteral || r.isNullLiteral
  | _ => false

/-- Without a literal NULL an ordered comparison stays. -/
theorem lowerOrdered_eq {op : BinaryOperator} {l r : Expr} {t : LogicalType}
    (h : (binary op l r t).comparesNull = false) : lowerOrdered op l r t = binary op l r t := by
  cases op with
  | eq | notEq =>
    rw [comparesNull, Bool.or_eq_false_iff] at h
    rw [lowerOrdered, h.2]
    rfl
  | _ => rfl

/-- Turning a comparison round keeps its literals. -/
theorem comparesNull_flipped {op op' : BinaryOperator} (h : op.flipped? = some op') (l r : Expr)
    (t : LogicalType) : (binary op' r l t).comparesNull = (binary op l r t).comparesNull := by
  cases op <;> cases h <;> first | rfl | exact Bool.or_comm _ _

/-- A comparison without a literal NULL is improved by lowering. -/
theorem better_lowerComparison {op : BinaryOperator} {l r : Expr} {t : LogicalType}
    (h : (binary op l r t).comparesNull = false) :
    Better (binary op l r t) (lowerComparison op l r t) := by
  unfold lowerComparison
  split
  next op' hop =>
    split
    · rw [lowerOrdered_eq ((comparesNull_flipped hop l r t).trans h)]
      exact better_flipped hop l r t
    · rw [lowerOrdered_eq h]
      exact .refl _
  next =>
    rw [lowerOrdered_eq h]
    exact .refl _

/-- A conjunction is improved by lowering. -/
theorem better_lowerAnd (l r : Expr) (t : LogicalType) :
    Better (binary .and l r t) (lowerAnd l r t) := by
  unfold lowerAnd
  split
  next hl => exact better_and_true_left l r t hl
  next =>
    split
    next hr => exact better_and_true_right l r t hr
    next => exact .refl _

/-- A negation is improved by lowering. -/
theorem better_lowerNot (e : Expr) (t : LogicalType) : Better (unary .not e t) (lowerNot e t) := by
  unfold lowerNot
  split
  · exact better_not_not _ t _
  · exact .refl _

/-- A filter is improved by lowering: no scalar reads its rows. -/
theorem better_lowerFilter (i p : Expr) : Better (filter i p) (lowerFilter i p) := by
  refine (dead_of_isRelational rfl).better fun f hf bs x hx => ?_
  obtain ⟨y, hy, _⟩ := transformUpM_eq_ok_iff.1 hx
  cases hy with
  | @filter _ _ i' p' hi hp =>
    unfold lowerFilter
    split
    next => exact ⟨i', hi⟩
    next =>
      split
      next inner first =>
        obtain ⟨z, hz, _⟩ := transformUpM_eq_ok_iff.1 hi
        cases hz with
        | filter hinner hfirst =>
          exact ⟨_, transformUpM_eq_ok_iff.2 ⟨_, .filter hinner
            ((transformUpM_binary_eq_ok_iff hf).2 ⟨_, _, hfirst, hp, rfl⟩), hf.other _ rfl⟩⟩
      next => exact ⟨x, hx⟩

/-- An ordering without keys can be dropped. -/
theorem better_order_nil (i : Expr) : Better (order i []) i := by
  refine (dead_of_isRelational rfl).better fun f _ bs x hx => ?_
  obtain ⟨y, hy, _⟩ := transformUpM_eq_ok_iff.1 hx
  cases hy with
  | order hi _ => exact ⟨_, hi⟩

/-- A node that tests no equality with NULL is better in its plain form. -/
theorem better_lowerNode {e : Expr} (h : e.comparesNull = false) : Better e e.lowerNode := by
  unfold lowerNode
  split
  next i p => exact better_lowerFilter i p
  next i => exact better_order_nil i
  next op l r t =>
    split
    next hop => subst hop; exact better_lowerAnd l r t
    next =>
      split
      · exact better_lowerComparison h
      · exact .refl _
  next e t => exact better_lowerNot e t
  next => exact .refl _

/-! ### Whole trees -/

/-- A comparison with NULL is a test for equality or its negation, with a literal on one side. -/
theorem exists_of_comparesNull {e : Expr} (h : e.comparesNull = true) :
    ∃ op l r t, e = .binary op l r t ∧ (op = .eq ∨ op = .notEq) ∧
      (l.isNullLiteral = true ∨ r.isNullLiteral = true) := by
  unfold comparesNull at h
  split at h
  · exact ⟨_, _, _, _, rfl, .inl rfl, Bool.or_eq_true_iff.1 h⟩
  · exact ⟨_, _, _, _, rfl, .inr rfl, Bool.or_eq_true_iff.1 h⟩
  · cases h

/-- Both sides of an equality count, so it has no value when one of them has none. -/
theorem dead_equality {op : BinaryOperator} (hop : op = .eq ∨ op = .notEq) {l r : Expr}
    (h : Dead l ∨ Dead r) (t : LogicalType) : Dead (binary op l r t) := by
  rcases h with h | h
  · exact h.binary_left op r t
  · refine h.binary_right (fun _ _ _ _ _ env u _ => ?_) t
    rcases hop with rfl | rfl <;> rfl

/-- In a folded tree an equality comes to test a literal NULL only when it has no value. -/
theorem dead_of_lowered_comparesNull {op : BinaryOperator} (hop : op = .eq ∨ op = .notEq)
    {l r : Expr} {t : LogicalType} (hfolded : IsFolded (binary op l r t))
    (hnull : (binary op l r t).comparesNull = false)
    (h : (l.transformUp lowerNode).isNullLiteral = true ∨
      (r.transformUp lowerNode).isNullLiteral = true) : Dead (binary op l r t) := by
  have hside : ∀ {e : Expr}, e ∈ (binary op l r t).children → e.isNullLiteral = false →
      (e.transformUp lowerNode).isNullLiteral = true → Dead e := by
    intro e he hliteral hlowered
    obtain ⟨t', heq⟩ := eq_of_isNullLiteral hlowered
    rcases literalOrDead (hfolded.of_mem_children he) .null (.inl rfl) (heq ▸ .const t') with
      ⟨_, rfl⟩ | hdead
    · cases hliteral
    · exact hdead
  have hliterals : l.isNullLiteral = false ∧ r.isNullLiteral = false := by
    rcases hop with rfl | rfl <;> exact Bool.or_eq_false_iff.1 hnull
  refine dead_equality hop (h.imp (hside ?_ hliterals.1) (hside ?_ hliterals.2)) t
  · exact List.mem_cons_self
  · exact List.mem_cons_of_mem _ List.mem_cons_self

/-- A lowered comparison stands a walk over aggregates that its operands stand. The lowered
comparison is a comparison or a test for NULL of the same operands, though perhaps with its sides
exchanged. -/
theorem exists_transformUpM_lowerComparison {f : Expr → Except Fault Expr}
    (hf : ReducesMonotonically f) {bs : Bindings} (op : BinaryOperator) {l r l' r' : Expr}
    (hl : (l.substitute bs).transformUpM f = .ok l') (hr : (r.substitute bs).transformUpM f = .ok r')
    (t : LogicalType) : ∃ x, ((lowerComparison op l r t).substitute bs).transformUpM f = .ok x := by
  have hordered : ∀ op {l r l' r' : Expr}, (l.substitute bs).transformUpM f = .ok l' →
      (r.substitute bs).transformUpM f = .ok r' →
      ∃ x, ((lowerOrdered op l r t).substitute bs).transformUpM f = .ok x := by
    intro op l r l' r' hl hr
    have hbinary : ∀ op, ∃ x, ((binary op l r t).substitute bs).transformUpM f = .ok x :=
      fun op => ⟨_, (transformUpM_binary_eq_ok_iff hf).2 ⟨l', r', hl, hr, rfl⟩⟩
    have hunary : ∀ op, ∃ x, ((mkUnary op l).substitute bs).transformUpM f = .ok x :=
      fun op => ⟨_, (transformUpM_unary_eq_ok_iff hf).2 ⟨l', hl, rfl⟩⟩
    unfold lowerOrdered
    split
    · split
      · exact hunary .isNull
      · exact hbinary .eq
    · split
      · exact hunary .isNotNull
      · exact hbinary .notEq
    · exact hbinary op
  unfold lowerComparison
  split
  · split
    · exact hordered _ hr hl
    · exact hordered _ hl hr
  · exact hordered _ hl hr

/-- A folded tree that tests no equality with NULL is better after lowering. By induction on the
tree. A test for equality with NULL can come up only if an operand has become NULL by lowering; then
the operand was dead, and so is the comparison. -/
theorem better_transformUp_lowerNode {e : Expr} (hfolded : IsFolded e)
    (hnull : e.any comparesNull = false) : Better e (e.transformUp lowerNode) := by
  induction e using childInduction with
  | h e ih =>
    rw [any_eq, Bool.or_eq_false_iff, List.any_eq_false] at hnull
    have hchildren : Better e (e.mapChildren (transformUp lowerNode)) :=
      (rebuilt_mapChildren fun c hc => ih c hc (hfolded.of_mem_children hc)
        (Bool.eq_false_iff.2 (hnull.2 c hc))).better
    rw [transformUp_eq]
    cases hlowered : (e.mapChildren (transformUp lowerNode)).comparesNull with
    | false => exact hchildren.trans (better_lowerNode hlowered)
    | true =>
      obtain ⟨op, l', r', t, heq, hop, hliteral⟩ := exists_of_comparesNull hlowered
      have hrebuilt : Rebuilt (fun c c' => c' = c.transformUp lowerNode) e
          (e.mapChildren (transformUp lowerNode)) := rebuilt_mapChildren fun _ _ => rfl
      rw [heq] at hrebuilt hchildren ⊢
      cases hrebuilt with
      | binary _ _ hl hr =>
        subst hl hr
        refine (dead_of_lowered_comparesNull hop hfolded hnull.1 hliteral).better
          fun f hf bs x hx => ?_
        obtain ⟨y, hy, _⟩ := hchildren f hf bs x hx
        obtain ⟨_, _, hl, hr, _⟩ := (transformUpM_binary_eq_ok_iff hf).1 hy
        rcases hop with rfl | rfl
        · exact exists_transformUpM_lowerComparison hf .eq hl hr t
        · exact exists_transformUpM_lowerComparison hf .notEq hl hr t

/-- A tree that tests no equality with NULL, once it is folded, is better after lowering. -/
theorem better_lower {e : Expr} (hnull : e.fold.any comparesNull = false) : Better e e.lower :=
  (better_fold e).trans (better_transformUp_lowerNode (isFolded_fold e) hnull)

/-! ### Aggregates stay -/

/-- An operator has the aggregates of its operands. -/
theorem hasAggregate_binary (op : BinaryOperator) (l r : Expr) (t : LogicalType) :
    (binary op l r t).hasAggregate = (l.hasAggregate || r.hasAggregate) := by
  rw [hasAggregate_eq]
  simp [isAggregate, children]

/-- An operator has the aggregates of its operand. -/
theorem hasAggregate_unary (op : UnaryOperator) (e : Expr) (t : LogicalType) :
    (unary op e t).hasAggregate = e.hasAggregate := by
  rw [hasAggregate_eq]
  simp [isAggregate, children]

/-- A filter has the aggregates of its input and its predicate. -/
theorem hasAggregate_filter (i p : Expr) :
    (filter i p).hasAggregate = (i.hasAggregate || p.hasAggregate) := by
  rw [hasAggregate_eq]
  simp [isAggregate, children]

theorem hasAggregate_const (v : Value) (t : LogicalType) : (const v t).hasAggregate = false := rfl

/-- Lowering a comparison moves aggregates and loses none. The operand that a test for NULL leaves
out is a constant. -/
theorem hasAggregate_lowerComparison (op : BinaryOperator) (l r : Expr) (t : LogicalType) :
    (lowerComparison op l r t).hasAggregate = (l.hasAggregate || r.hasAggregate) := by
  have hordered : ∀ op l r,
      (lowerOrdered op l r t).hasAggregate = (l.hasAggregate || r.hasAggregate) := by
    intro op l r
    have hunary : ∀ op, r.isNullLiteral = true →
        (mkUnary op l).hasAggregate = (l.hasAggregate || r.hasAggregate) := by
      intro op hr
      obtain ⟨t', rfl⟩ := eq_of_isNullLiteral hr
      rw [mkUnary, hasAggregate_unary, hasAggregate_const, Bool.or_false]
    unfold lowerOrdered
    split
    · split
      next hr => exact hunary .isNull hr
      next => exact hasAggregate_binary .eq l r t
    · split
      next hr => exact hunary .isNotNull hr
      next => exact hasAggregate_binary .notEq l r t
    · exact hasAggregate_binary op l r t
  unfold lowerComparison
  split
  · split
    · rw [hordered, Bool.or_comm]
    · exact hordered op l r
  · exact hordered op l r

/-- Lowering one node neither makes nor loses an aggregate. What disappears are constants, pairs of
negations and orderings without keys. -/
theorem hasAggregate_lowerNode (e : Expr) : e.lowerNode.hasAggregate = e.hasAggregate := by
  unfold lowerNode
  split
  next i p =>
    unfold lowerFilter
    split
    next hp =>
      obtain ⟨t, rfl⟩ := eq_of_isTrue hp
      rw [hasAggregate_filter, hasAggregate_const, Bool.or_false]
    next =>
      split
      · rw [hasAggregate_filter, mkBinary, hasAggregate_binary, hasAggregate_filter,
          hasAggregate_filter, Bool.or_assoc]
      · rfl
  next i =>
    rw [hasAggregate_eq (order i [])]
    simp [isAggregate, children]
  next op l r t =>
    split
    next hop =>
      subst hop
      unfold lowerAnd
      split
      next hl =>
        obtain ⟨t', rfl⟩ := eq_of_isTrue hl
        rw [hasAggregate_binary, hasAggregate_const, Bool.false_or]
      next =>
        split
        next hr =>
          obtain ⟨t', rfl⟩ := eq_of_isTrue hr
          rw [hasAggregate_binary, hasAggregate_const, Bool.or_false]
        next => rfl
    next =>
      split
      · rw [hasAggregate_lowerComparison, hasAggregate_binary]
      · rfl
  next e t =>
    unfold lowerNot
    split
    · rw [hasAggregate_unary, hasAggregate_unary]
    · rfl
  next => rfl

/-- Lowering drops no aggregate and makes none. -/
theorem hasAggregate_lower (e : Expr) : e.lower.hasAggregate = e.hasAggregate :=
  (hasAggregate_transformUp hasAggregate_lowerNode e.fold).trans (hasAggregate_fold e)

end Expr

end QueryTree
