import QueryTree.Memory.Relation
import QueryTree.Proofs.Rebuild

/-!
# Expressions that may stand for one another

A simplification may make an expression fail less often, but where the original has a value the
simplified expression has the same. For a scalar expression this is `EvalBelow`. Inside a projection
with groups an expression is evaluated after a walk has computed its aggregates, and there the walk
must succeed too: `Improves f` says both, for a walk with step `f`. The step `.ok` changes nothing,
so that plain evaluation is a case of it.

A simplification at compile time happens before the arguments are known. `Better` therefore speaks
of the two expressions after any substitution. It is kept by every kind of node
(`Rebuilt.better`), which leaves for a bottom-up pass one fact about the node that it changes
(`better_transformUp`).

Nothing is asked of the other direction, and for filters it fails: one filter on a conjunction may
fail on a row that the first of two filters takes away.
-/

namespace QueryTree

open Attempt

namespace Expr

/-! ### Values -/

/-- Wherever the first expression has a value, the second has the same. -/
def EvalBelow (e e' : Expr) : Prop := ∀ env, Below (e.evaluate env) (e'.evaluate env)

theorem EvalBelow.refl (e : Expr) : EvalBelow e e := fun _ => Below.refl _

/-- Values that are kept twice are kept. -/
theorem EvalBelow.trans {e e' e'' : Expr} (h : EvalBelow e e') (h' : EvalBelow e' e'') :
    EvalBelow e e'' := fun env => (h env).trans (h' env)

/-- The expression has no value, whatever the environment. -/
def NoValue (e : Expr) : Prop := ∀ env v, e.evaluate env ≠ .ok v

/-- Where there is no value, there is none to keep. -/
theorem NoValue.evalBelow {e : Expr} (h : NoValue e) (e' : Expr) : EvalBelow e e' :=
  fun env v hv => absurd hv (h env v)

/-- A relation is no scalar, so it has no value. -/
theorem noValue_of_isRelational {e : Expr} (h : e.isRelational = true) : NoValue e := by
  intro env v hv
  cases e with
  | scan | filter | project | order | limit | join | setOp => cases hv
  | const | param | column | member | binary | unary | call | aggregate | lambda => cases h

/-- A node has the values of the node it was, when its subtrees have theirs. -/
theorem Rebuilt.evalBelow {e e' : Expr} (h : Rebuilt EvalBelow e e') : EvalBelow e e' := by
  cases h with
  | const | param | column => exact .refl _
  | member n t h => exact fun env => evaluate_member_below (h env) n t t
  | binary op t hl hr => exact fun env => evaluate_binary_below op (hl env) (hr env) t t
  | unary op t h => exact fun env => evaluate_unary_below op (h env) t t
  | call n t h => exact fun env => evaluate_call_below n (h.imp fun _ _ h => h env) t t
  | aggregate | lambda => exact fun env v hv => nomatch hv
  | scan | filter | project | order | limit | join | setOp =>
    exact (noValue_of_isRelational rfl).evalBelow _

/-! ### Two changes of one node -/

section Square

variable {α β γ δ : Type} {A : α → β → Prop} {B : α → γ → Prop} {B' : β → δ → Prop}
  {C : γ → δ → Prop}

/-- Squares of relations can be completed along lists. -/
theorem forall₂_square (h : ∀ a b c, A a b → B a c → ∃ d, B' b d ∧ C c d) {as : List α}
    {bs : List β} {cs : List γ} (hab : List.Forall₂ A as bs) (hac : List.Forall₂ B as cs) :
    ∃ ds, List.Forall₂ B' bs ds ∧ List.Forall₂ C cs ds := by
  induction hab generalizing cs with
  | nil =>
    cases hac
    exact ⟨[], .nil, .nil⟩
  | cons hab _ ih =>
    cases hac with
    | cons hac hacs =>
      obtain ⟨d, hbd, hcd⟩ := h _ _ _ hab hac
      obtain ⟨ds, hbds, hcds⟩ := ih hacs
      exact ⟨d :: ds, .cons hbd hbds, .cons hcd hcds⟩

/-- Squares of relations can be completed where there is an element. -/
theorem optionRel_square (h : ∀ a b c, A a b → B a c → ∃ d, B' b d ∧ C c d) {a : Option α}
    {b : Option β} {c : Option γ} (hab : Option.Rel A a b) (hac : Option.Rel B a c) :
    ∃ d, Option.Rel B' b d ∧ Option.Rel C c d := by
  cases hab with
  | none =>
    cases hac
    exact ⟨none, .none, .none⟩
  | some hab =>
    cases hac with
    | some hac =>
      obtain ⟨d, hbd, hcd⟩ := h _ _ _ hab hac
      exact ⟨some d, .some hbd, .some hcd⟩

/-- Squares can be completed at a column, whose name stays. -/
theorem column_square (h : ∀ a b c, A a b → B a c → ∃ d, B' b d ∧ C c d) (x : ColumnOf α)
    (y : ColumnOf β) (z : ColumnOf γ) (hxy : y.name = x.name ∧ A x.expr y.expr)
    (hxz : z.name = x.name ∧ B x.expr z.expr) :
    ∃ w : ColumnOf δ, (w.name = y.name ∧ B' y.expr w.expr) ∧ w.name = z.name ∧ C z.expr w.expr := by
  obtain ⟨d, hB', hC⟩ := h _ _ _ hxy.2 hxz.2
  exact ⟨⟨x.name, d⟩, ⟨hxy.1.symm, hB'⟩, hxz.1.symm, hC⟩

/-- Squares can be completed at an ordering key, whose direction stays. -/
theorem key_square (h : ∀ a b c, A a b → B a c → ∃ d, B' b d ∧ C c d) (x : KeyOf α) (y : KeyOf β)
    (z : KeyOf γ) (hxy : y.direction = x.direction ∧ A x.expr y.expr)
    (hxz : z.direction = x.direction ∧ B x.expr z.expr) :
    ∃ w : KeyOf δ, (w.direction = y.direction ∧ B' y.expr w.expr) ∧
      w.direction = z.direction ∧ C z.expr w.expr := by
  obtain ⟨d, hB', hC⟩ := h _ _ _ hxy.2 hxz.2
  exact ⟨⟨d, x.direction⟩, ⟨hxy.1.symm, hB'⟩, hxz.1.symm, hC⟩

end Square

/-- Two changes of the subtrees of one node can be brought together when those of each subtree can.
There is one case for each kind of node, since `Rebuilt` leaves the node itself as it is. -/
theorem Rebuilt.square {A B B' C : Expr → Expr → Prop} {e e' y : Expr}
    (h : ∀ c c' d, A c c' → B c d → ∃ d', B' c' d' ∧ C d d') (hA : Rebuilt A e e')
    (hB : Rebuilt B e y) : ∃ y', Rebuilt B' e' y' ∧ Rebuilt C y y' := by
  cases hA with
  | const v t => cases hB; exact ⟨_, .const v t, .const v t⟩
  | param n t => cases hB; exact ⟨_, .param n t, .param n t⟩
  | column a n t => cases hB; exact ⟨_, .column a n t, .column a n t⟩
  | member n t hA =>
    cases hB with
    | member _ _ hB =>
      obtain ⟨d, hB', hC⟩ := h _ _ _ hA hB
      exact ⟨_, .member n t hB', .member n t hC⟩
  | binary op t hAl hAr =>
    cases hB with
    | binary _ _ hBl hBr =>
      obtain ⟨l, hBl', hCl⟩ := h _ _ _ hAl hBl
      obtain ⟨r, hBr', hCr⟩ := h _ _ _ hAr hBr
      exact ⟨_, .binary op t hBl' hBr', .binary op t hCl hCr⟩
  | unary op t hA =>
    cases hB with
    | unary _ _ hB =>
      obtain ⟨d, hB', hC⟩ := h _ _ _ hA hB
      exact ⟨_, .unary op t hB', .unary op t hC⟩
  | call n t hA =>
    cases hB with
    | call _ _ hB =>
      obtain ⟨ds, hB', hC⟩ := forall₂_square h hA hB
      exact ⟨_, .call n t hB', .call n t hC⟩
  | aggregate f d t hA =>
    cases hB with
    | aggregate _ _ _ hB =>
      obtain ⟨a, hB', hC⟩ := optionRel_square h hA hB
      exact ⟨_, .aggregate f d t hB', .aggregate f d t hC⟩
  | lambda ps hA =>
    cases hB with
    | lambda _ hB =>
      obtain ⟨b, hB', hC⟩ := h _ _ _ hA hB
      exact ⟨_, .lambda ps hB', .lambda ps hC⟩
  | scan a t hA =>
    cases hB with
    | scan _ _ hB =>
      obtain ⟨s, hB', hC⟩ := h _ _ _ hA hB
      exact ⟨_, .scan a t hB', .scan a t hC⟩
  | filter hAi hAp =>
    cases hB with
    | filter hBi hBp =>
      obtain ⟨i, hBi', hCi⟩ := h _ _ _ hAi hBi
      obtain ⟨p, hBp', hCp⟩ := h _ _ _ hAp hBp
      exact ⟨_, .filter hBi' hBp', .filter hCi hCp⟩
  | project a d hAi hAcs hAgs =>
    cases hB with
    | project _ _ hBi hBcs hBgs =>
      obtain ⟨i, hBi', hCi⟩ := h _ _ _ hAi hBi
      obtain ⟨gs, hBgs', hCgs⟩ := forall₂_square h hAgs hBgs
      obtain ⟨cs, hBcs', hCcs⟩ := forall₂_square (column_square h) hAcs hBcs
      exact ⟨_, .project a d hBi' hBcs' hBgs', .project a d hCi hCcs hCgs⟩
  | order hAi hAks =>
    cases hB with
    | order hBi hBks =>
      obtain ⟨i, hBi', hCi⟩ := h _ _ _ hAi hBi
      obtain ⟨ks, hBks', hCks⟩ := forall₂_square (key_square h) hAks hBks
      exact ⟨_, .order hBi' hBks', .order hCi hCks⟩
  | limit hAi hAt hAs =>
    cases hB with
    | limit hBi hBt hBs =>
      obtain ⟨i, hBi', hCi⟩ := h _ _ _ hAi hBi
      obtain ⟨t, hBt', hCt⟩ := optionRel_square h hAt hBt
      obtain ⟨s, hBs', hCs⟩ := optionRel_square h hAs hBs
      exact ⟨_, .limit hBi' hBt' hBs', .limit hCi hCt hCs⟩
  | join k hAl hAr hAo =>
    cases hB with
    | join _ hBl hBr hBo =>
      obtain ⟨l, hBl', hCl⟩ := h _ _ _ hAl hBl
      obtain ⟨r, hBr', hCr⟩ := h _ _ _ hAr hBr
      obtain ⟨o, hBo', hCo⟩ := optionRel_square h hAo hBo
      exact ⟨_, .join k hBl' hBr' hBo', .join k hCl hCr hCo⟩
  | setOp op all a hAl hAr =>
    cases hB with
    | setOp _ _ _ hBl hBr =>
      obtain ⟨l, hBl', hCl⟩ := h _ _ _ hAl hBl
      obtain ⟨r, hBr', hCr⟩ := h _ _ _ hAr hBr
      exact ⟨_, .setOp op all a hBl' hBr', .setOp op all a hCl hCr⟩

/-! ### Expressions after a walk that computes aggregates -/

section Improves

/-- The step of a walk that changes aggregates only, and no worse when their arguments have more
values. -/
structure ReducesMonotonically (f : Expr → Except Fault Expr) : Prop where
  other : ∀ e : Expr, e.isAggregate = false → f e = .ok e
  aggregate : ∀ {fn : AggregateFunction} {a a' : Option Expr} {d : Bool} {t : LogicalType}
    {x : Expr}, Option.Rel EvalBelow a a' → f (.aggregate fn a d t) = .ok x →
      ∃ x', f (.aggregate fn a' d t) = .ok x' ∧ EvalBelow x x'

/-- When the walk succeeds on the first expression it does on the second, and what it leaves of the
second has the values of what it leaves of the first. -/
def Improves (f : Expr → Except Fault Expr) (e e' : Expr) : Prop :=
  ∀ x, e.transformUpM f = .ok x → ∃ x', e'.transformUpM f = .ok x' ∧ EvalBelow x x'

variable {f : Expr → Except Fault Expr} {e e' e'' : Expr}

theorem Improves.refl (f : Expr → Except Fault Expr) (e : Expr) : Improves f e e :=
  fun x hx => ⟨x, hx, .refl x⟩

/-- Improvements compose. -/
theorem Improves.trans (h : Improves f e e') (h' : Improves f e' e'') : Improves f e e'' := by
  intro x hx
  obtain ⟨x', hx', hbelow⟩ := h x hx
  obtain ⟨x'', hx'', hbelow'⟩ := h' x' hx'
  exact ⟨x'', hx'', hbelow.trans hbelow'⟩

/-- A node is improved by improved subtrees. -/
theorem Rebuilt.improves (hf : ReducesMonotonically f) (h : Rebuilt (Improves f) e e') :
    Improves f e e' := by
  intro x hx
  obtain ⟨y, hy, hx⟩ := transformUpM_eq_ok_iff.1 hx
  obtain ⟨y', hy', hbelow⟩ := Rebuilt.square (fun c c' d hc hd => hc d hd) h hy
  cases hagg : e.isAggregate with
  | true =>
    cases hbelow with
    | aggregate _ _ _ harg =>
      obtain ⟨x', hx', hxx'⟩ := hf.aggregate harg hx
      exact ⟨x', transformUpM_eq_ok_iff.2 ⟨_, hy', hx'⟩, hxx'⟩
    | _ => exact absurd (hy.isAggregate_eq.trans hagg) Bool.false_ne_true
  | false =>
    have hyagg := hy.isAggregate_eq.trans hagg
    rw [hf.other y hyagg] at hx
    obtain rfl := Except.ok.inj hx
    refine ⟨y', transformUpM_eq_ok_iff.2 ⟨y', hy', hf.other y' ?_⟩, hbelow.evalBelow⟩
    exact hbelow.isAggregate_eq.trans hyagg

/-- A bottom-up pass improves a tree when it improves each node. -/
theorem improves_transformUp (hf : ReducesMonotonically f) {g : Expr → Expr}
    (hg : ∀ e, Improves f e (g e)) (e : Expr) : Improves f e (e.transformUp g) := by
  induction e using childInduction with
  | h e ih =>
    rw [transformUp_eq]
    exact ((rebuilt_mapChildren ih).improves hf).trans (hg _)

/-- The walk that changes nothing. -/
theorem reducesMonotonically_ok : ReducesMonotonically .ok where
  other _ _ := rfl
  aggregate _ h := by
    obtain rfl := Except.ok.inj h
    exact ⟨_, rfl, fun env v hv => nomatch hv⟩

/-- A walk that changes nothing leaves the tree. -/
theorem transformUpM_ok (e : Expr) :
    e.transformUpM (Except.ok : Expr → Except Fault Expr) = .ok e := by
  induction e using childInduction with
  | h e ih => exact transformUpM_eq_ok_iff.2 ⟨e, rebuilt_self ih, rfl⟩

/-- What improves an expression for the walk that changes nothing keeps its values. -/
theorem Improves.evalBelow (h : Improves .ok e e') : EvalBelow e e' := by
  obtain ⟨x', hx', hbelow⟩ := h e (transformUpM_ok e)
  rw [transformUpM_ok] at hx'
  obtain rfl := Except.ok.inj hx'
  exact hbelow

/-- Aggregates of a group see the values of their arguments on its rows. -/
theorem reducesMonotonically_aggregateNode (columns : List QualifiedName) (group : List Row) :
    ReducesMonotonically (Relation.aggregateNode columns group) where
  other e he := by cases e <;> first | rfl | cases he
  aggregate {fn a a' d t x} harg h := by
    obtain ⟨v, hv, hx⟩ := bind_eq_ok_iff.1 h
    obtain rfl := pure_eq_ok_iff.1 hx
    refine ⟨_, bind_eq_ok_iff.2 ⟨v, ?_, rfl⟩, .refl _⟩
    cases harg with
    | none => exact hv
    | some harg =>
      refine Below.bind (fun values hvalues => ?_) (fun values _ => .refl _) v hv
      rw [liftEval_eq_ok_iff] at hvalues ⊢
      exact Below.mapM (List.forall₂_same.2 fun row _ => harg _) values hvalues

/-- An improved column has the same value over a group. -/
theorem groupValue_below (h : ∀ f, ReducesMonotonically f → Improves f e e')
    (columns : List QualifiedName) (group : List Row) :
    Below (Relation.groupValue columns group e) (Relation.groupValue columns group e') := by
  intro v hv
  obtain ⟨x, hx, hv⟩ := bind_eq_ok_iff.1 hv
  obtain ⟨x', hx', hbelow⟩ := h _ (reducesMonotonically_aggregateNode columns group) x hx
  rw [liftEval_eq_ok_iff] at hv
  exact bind_eq_ok_iff.2 ⟨x', hx', liftEval_eq_ok_iff.2 (hbelow _ v hv)⟩

end Improves

/-! ### Expressions before the arguments are known -/

section Better

/-- What a parameter is replaced by is a parameter or a constant, without children. -/
theorem children_substitute_param (bs : Bindings) (n : String) (t : LogicalType) (c : Expr) :
    c ∉ ((param n t).substitute bs).children := by
  rw [Expr.substitute]
  cases bs.find? n <;> exact List.not_mem_nil

/-- Substitution keeps the correspondence of two nodes. A lambda shadows its parameters, so the
bindings are not the same for all subtrees; this is why the subtrees must correspond under all
bindings. -/
theorem Rebuilt.substitute {R R' : Expr → Expr → Prop} {e e' : Expr}
    (hR : ∀ bs c c', R c c' → R' (c.substitute bs) (c'.substitute bs)) (h : Rebuilt R e e')
    (bs : Bindings) : Rebuilt R' (e.substitute bs) (e'.substitute bs) := by
  have hlist : ∀ {es es'}, List.Forall₂ R es es' →
      List.Forall₂ R' (substituteList bs es) (substituteList bs es') := by
    intro es es' hes
    rw [substituteList_eq, substituteList_eq, List.forall₂_map_left_iff, List.forall₂_map_right_iff]
    exact hes.imp fun c c' hc => hR bs c c' hc
  have hoption : ∀ {o o'}, Option.Rel R o o' →
      Option.Rel R' (substituteOption bs o) (substituteOption bs o') := by
    intro o o' ho
    cases ho with
    | none => exact .none
    | some ho => exact .some (hR bs _ _ ho)
  cases h with
  | const v t => exact .const v t
  | param n t => exact rebuilt_self fun c hc => absurd hc (children_substitute_param bs n t c)
  | column a n t => exact .column a n t
  | member n t h => exact .member n t (hR bs _ _ h)
  | binary op t hl hr => exact .binary op t (hR bs _ _ hl) (hR bs _ _ hr)
  | unary op t h => exact .unary op t (hR bs _ _ h)
  | call n t h => exact .call n t (hlist h)
  | aggregate fn d t h => exact .aggregate fn d t (hoption h)
  | lambda ps h => exact .lambda ps (hR (bs.shadow ps) _ _ h)
  | scan a t h => exact .scan a t (hR bs _ _ h)
  | filter hi hp => exact .filter (hR bs _ _ hi) (hR bs _ _ hp)
  | project a d hi hcs hgs =>
    refine .project a d (hR bs _ _ hi) ?_ (hlist hgs)
    rw [substituteColumns_eq, substituteColumns_eq, List.forall₂_map_left_iff,
      List.forall₂_map_right_iff]
    exact hcs.imp fun c c' hc => ⟨hc.1, hR bs _ _ hc.2⟩
  | order hi hks =>
    refine .order (hR bs _ _ hi) ?_
    rw [substituteKeys_eq, substituteKeys_eq, List.forall₂_map_left_iff, List.forall₂_map_right_iff]
    exact hks.imp fun k k' hk => ⟨hk.1, hR bs _ _ hk.2⟩
  | limit hi ht hs => exact .limit (hR bs _ _ hi) (hoption ht) (hoption hs)
  | join k hl hr ho => exact .join k (hR bs _ _ hl) (hR bs _ _ hr) (hoption ho)
  | setOp op all a hl hr => exact .setOp op all a (hR bs _ _ hl) (hR bs _ _ hr)

/-- The second expression improves the first whatever is put in for the parameters. -/
def Better (e e' : Expr) : Prop :=
  ∀ f, ReducesMonotonically f → ∀ bs, Improves f (e.substitute bs) (e'.substitute bs)

theorem Better.refl (e : Expr) : Better e e := fun f _ _ => .refl f _

/-- Improvements under all bindings compose. -/
theorem Better.trans {e e' e'' : Expr} (h : Better e e') (h' : Better e' e'') : Better e e'' :=
  fun f hf bs => (h f hf bs).trans (h' f hf bs)

/-- A node is better with better subtrees. -/
theorem Rebuilt.better {e e' : Expr} (h : Rebuilt Better e e') : Better e e' :=
  fun f hf bs => (Rebuilt.substitute (fun bs _ _ h => h f hf bs) h bs).improves hf

/-- A bottom-up pass makes a tree better when it makes each node better. -/
theorem better_transformUp {g : Expr → Expr} (hg : ∀ e, Better e (g e)) (e : Expr) :
    Better e (e.transformUp g) := by
  induction e using childInduction with
  | h e ih =>
    rw [transformUp_eq]
    exact (rebuilt_mapChildren ih).better.trans (hg _)

end Better

end Expr

end QueryTree
