import QueryTree.Pass.DeadColumns
import QueryTree.Proofs.Attempt
import QueryTree.Proofs.Tree

/-!
# What the value of an expression depends on

Evaluation is strict from left to right, except where the left side of a conjunction or disjunction
decides (`evaluate_binary_eq_ok_iff`). So a node returns at least as much as another one of its kind
as soon as its operands do (`evaluate_binary_below` and its companions), and comparing trees needs
no more of the evaluator's recursion than these four facts.

Two consequences about environments follow. An expression has one value in all environments that
agree on the columns it refers to (`evaluate_congr`), and what it returns in an environment it
returns in every larger one (`evaluate_mono`).
-/

namespace QueryTree

open Attempt

namespace Expr

/-! ### Lists of expressions -/

/-- A list is evaluated one expression after the other. -/
theorem evaluateList_eq (env : Env) (es : List Expr) :
    evaluateList env es = es.mapM (evaluate env) := by
  induction es with
  | nil => simp [evaluateList, pure, Except.pure]
  | cons e es ih => simp only [evaluateList, ih, List.mapM_cons]

/-- The references of a list, as those of its members in order. -/
theorem columnRefsList_eq (es : List Expr) : columnRefsList es = es.flatMap columnRefs := by
  induction es with
  | nil => rfl
  | cons e es ih => rw [columnRefsList, ih, List.flatMap_cons]

/-- The references of an optional expression, as those of the one that may be there. -/
theorem columnRefsOption_eq (o : Option Expr) :
    columnRefsOption o = o.toList.flatMap columnRefs := by
  cases o with
  | none => rfl
  | some e => simp [columnRefsOption]

/-! ### One node at a time -/

variable {env env' : Env}

/-- A member keeps the results of its target. -/
theorem evaluate_member_below {e e' : Expr} (h : Below (e.evaluate env) (e'.evaluate env'))
    (n : String) (t t' : LogicalType) :
    Below ((member e n t).evaluate env) ((member e' n t').evaluate env') :=
  h.bind fun _ _ => .refl _

/-- A binary operator has its value from the left side alone if that decides, and else from both. -/
theorem evaluate_binary_eq_ok_iff {op : BinaryOperator} {l r : Expr} {t : LogicalType}
    {v : Value} :
    (binary op l r t).evaluate env = .ok v ↔
      ∃ u, l.evaluate env = .ok u ∧
        ((Scalar.decided? op u = some v) ∨ (Scalar.decided? op u = none ∧
          ∃ w, r.evaluate env = .ok w ∧ Scalar.binary op u w = .ok v)) := by
  rw [evaluate, bind_eq_ok_iff]
  refine exists_congr fun u => and_congr_right fun _ => ?_
  cases hu : Scalar.decided? op u with
  | some w => simp
  | none => simp [bind_eq_ok_iff]

/-- A binary operation keeps the results of its operands, also where the first decides it. -/
theorem evaluate_binary_below {l r l' r' : Expr} (op : BinaryOperator)
    (hl : Below (l.evaluate env) (l'.evaluate env'))
    (hr : Below (r.evaluate env) (r'.evaluate env')) (t t' : LogicalType) :
    Below ((binary op l r t).evaluate env) ((binary op l' r' t').evaluate env') := by
  refine hl.bind fun a _ => ?_
  -- the right side is looked at only when the left one leaves the result open
  cases Scalar.decided? op a with
  | some w => exact .refl _
  | none => exact hr.bind fun _ _ => .refl _

/-- A unary operation keeps the results of its operand. -/
theorem evaluate_unary_below {e e' : Expr} (op : UnaryOperator)
    (h : Below (e.evaluate env) (e'.evaluate env')) (t t' : LogicalType) :
    Below ((unary op e t).evaluate env) ((unary op e' t').evaluate env') :=
  h.bind fun _ _ => .refl _

/-- A call keeps the results of its arguments. -/
theorem evaluate_call_below {es es' : List Expr} (n : String)
    (h : List.Forall₂ (fun e e' => Below (e.evaluate env) (e'.evaluate env')) es es')
    (t t' : LogicalType) :
    Below ((call n es t).evaluate env) ((call n es' t').evaluate env') := by
  simp only [evaluate, evaluateList_eq]
  exact (Below.mapM h).bind fun _ _ => .refl _

end Expr

/-! ### Environments -/

/-- The environments answer alike for parameters and for the listed columns. -/
structure Env.AgreeOn (refs : List ColumnRef) (env env' : Env) : Prop where
  parameter : ∀ n, env.parameter n = env'.parameter n
  column : ∀ ref ∈ refs, env.column ref.qualifier ref.name = env'.column ref.qualifier ref.name

/-- Environments that agree on some columns agree on fewer. -/
theorem Env.AgreeOn.mono {refs refs' : List ColumnRef} {env env' : Env}
    (h : Env.AgreeOn refs env env') (hrefs : ∀ ref ∈ refs', ref ∈ refs) :
    Env.AgreeOn refs' env env' :=
  ⟨h.parameter, fun ref href => h.column ref (hrefs ref href)⟩

/-- What the first environment binds, the second binds to the same value. -/
structure Env.Below (env env' : Env) : Prop where
  parameter : ∀ n v, env.parameter n = some v → env'.parameter n = some v
  column : ∀ a n v, env.column a n = some v → env'.column a n = some v

namespace Expr

/-- An expression has the same outcome in environments that agree on the columns it refers to. By
induction on the expression, each operand of which refers to some of the columns. -/
theorem evaluate_congr {env env' : Env} (e : Expr) (h : Env.AgreeOn e.columnRefs env env') :
    e.evaluate env = e.evaluate env' := by
  induction e using treeInduction with
  | const v t => rfl
  | param n t => simp only [evaluate, h.parameter]
  | column a n t => simp only [evaluate, h.column ⟨a, n⟩ List.mem_cons_self]
  | member e n t ih => simp only [evaluate, ih h]
  | binary op l r t ihl ihr =>
    have hl := ihl (h.mono fun ref href => List.mem_append_left _ href)
    have hr := ihr (h.mono fun ref href => List.mem_append_right _ href)
    simp only [evaluate, hl, hr]
  | unary op e t ih => simp only [evaluate, ih h]
  | call n es t ih =>
    have hes : es.mapM (evaluate env) = es.mapM (evaluate env') := by
      refine mapM_congr fun e he => ih e he (h.mono fun ref href => ?_)
      rw [columnRefs, columnRefsList_eq]
      exact List.mem_flatMap.2 ⟨e, he, href⟩
    simp only [evaluate, evaluateList_eq, hes]
  | aggregate f a d t _ => rfl
  | lambda ps b _ => rfl
  | scan s a t _ => rfl
  | filter i p _ _ => rfl
  | project a i cs d gs _ _ _ => rfl
  | order i ks _ _ => rfl
  | limit i t s _ _ _ => rfl
  | join k l r o _ _ _ => rfl
  | setOp op all l r a _ _ => rfl

/-- A larger environment returns at least as much. What was missing may be found, so an error may
turn into a value, but no value changes. -/
theorem evaluate_mono {env env' : Env} (h : Env.Below env env') (e : Expr) :
    Below (e.evaluate env) (e.evaluate env') := by
  induction e using treeInduction with
  | const v t => exact .refl _
  | param n t =>
    intro v hv
    simp only [evaluate] at hv ⊢
    cases hn : env.parameter n with
    | none => rw [hn] at hv; cases hv
    | some w => rw [hn] at hv; rw [h.parameter n w hn]; exact hv
  | column a n t =>
    intro v hv
    simp only [evaluate] at hv ⊢
    cases hn : env.column a n with
    | none => rw [hn] at hv; cases hv
    | some w => rw [hn] at hv; rw [h.column a n w hn]; exact hv
  | member e n t ih => exact evaluate_member_below ih n t t
  | binary op l r t ihl ihr => exact evaluate_binary_below op ihl ihr t t
  | unary op e t ih => exact evaluate_unary_below op ih t t
  | call n es t ih => exact evaluate_call_below n (List.forall₂_same.2 ih) t t
  | aggregate f a d t _ => exact .refl _
  | lambda ps b _ => exact .refl _
  | scan s a t _ => exact .refl _
  | filter i p _ _ => exact .refl _
  | project a i cs d gs _ _ _ => exact .refl _
  | order i ks _ _ => exact .refl _
  | limit i t s _ _ _ => exact .refl _
  | join k l r o _ _ _ => exact .refl _
  | setOp op all l r a _ _ => exact .refl _

end Expr

end QueryTree
