import QueryTree.Proofs.Evaluation

/-!
# Nodes with changed subtrees

A walk over a tree changes the subtrees of a node and then the node itself. `Rebuilt R` says of two
nodes that they are the same but for their direct subtrees, and that these correspond by `R`. It is
what a change of the subtrees leaves behind, when it succeeds (`mapChildrenM_eq_ok_iff`), so a fact
about all kinds of nodes is a fact about `Rebuilt`.

Aggregates are computed by such a walk. It leaves every other node as it is, so it reads no column
that the expression does not refer to (`columnRefs_reduced`), and two walks that compute aggregates
alike come to the same result (`transformUpM_below`).
-/

namespace QueryTree

open Attempt

namespace Expr

/-! ### Induction on direct subtrees -/

/-- Induction over a tree, from the direct subtrees of a node to the node. It serves proofs that
treat the nodes alike; those that have a case for each kind go by `treeInduction`. -/
@[elab_as_elim]
theorem childInduction {P : Expr → Prop} (h : ∀ e, (∀ c ∈ e.children, P c) → P e) (e : Expr) :
    P e := by
  induction e using treeInduction with
  | const v t => exact h _ fun c hc => (nomatch hc)
  | param n t => exact h _ fun c hc => (nomatch hc)
  | column a n t => exact h _ fun c hc => (nomatch hc)
  | member e n t ih => exact h _ (List.forall_mem_singleton.2 ih)
  | binary op l r t ihl ihr =>
    exact h _ (List.forall_mem_cons.2 ⟨ihl, List.forall_mem_singleton.2 ihr⟩)
  | unary op e t ih => exact h _ (List.forall_mem_singleton.2 ih)
  | call n es t ih => exact h _ ih
  | aggregate f a d t ih => exact h _ fun c hc => ih c (Option.mem_toList.1 hc)
  | lambda ps b ih => exact h _ (List.forall_mem_singleton.2 ih)
  | scan s a t ih => exact h _ (List.forall_mem_singleton.2 ih)
  | filter i p ihi ihp =>
    exact h _ (List.forall_mem_cons.2 ⟨ihi, List.forall_mem_singleton.2 ihp⟩)
  | project a i cs d gs ihi ihcs ihgs =>
    refine h _ (List.forall_mem_cons.2 ⟨ihi, fun c hc => ?_⟩)
    rcases List.mem_append.1 hc with hc | hc
    · obtain ⟨column, hcolumn, rfl⟩ := List.mem_map.1 hc
      exact ihcs column hcolumn
    · exact ihgs c hc
  | order i ks ihi ihks => exact h _ (List.forall_mem_cons.2 ⟨ihi, List.forall_mem_map.2 ihks⟩)
  | limit i t s ihi iht ihs =>
    refine h _ (List.forall_mem_cons.2 ⟨ihi, fun c hc => ?_⟩)
    rcases List.mem_append.1 hc with hc | hc
    · exact iht c (Option.mem_toList.1 hc)
    · exact ihs c (Option.mem_toList.1 hc)
  | join k l r o ihl ihr iho =>
    exact h _ (List.forall_mem_cons.2 ⟨ihl, List.forall_mem_cons.2
      ⟨ihr, fun c hc => iho c (Option.mem_toList.1 hc)⟩⟩)
  | setOp op all l r a ihl ihr =>
    exact h _ (List.forall_mem_cons.2 ⟨ihl, List.forall_mem_singleton.2 ihr⟩)

/-! ### Rebuilt nodes -/

/-- The same node, with subtrees that correspond. -/
inductive Rebuilt (R : Expr → Expr → Prop) : Expr → Expr → Prop
  | const (v t) : Rebuilt R (.const v t) (.const v t)
  | param (n t) : Rebuilt R (.param n t) (.param n t)
  | column (a n t) : Rebuilt R (.column a n t) (.column a n t)
  | member {e e'} (n t) : R e e' → Rebuilt R (.member e n t) (.member e' n t)
  | binary {l r l' r'} (op t) : R l l' → R r r' → Rebuilt R (.binary op l r t) (.binary op l' r' t)
  | unary {e e'} (op t) : R e e' → Rebuilt R (.unary op e t) (.unary op e' t)
  | call {es es'} (n t) : List.Forall₂ R es es' → Rebuilt R (.call n es t) (.call n es' t)
  | aggregate {a a'} (f d t) : Option.Rel R a a' →
      Rebuilt R (.aggregate f a d t) (.aggregate f a' d t)
  | lambda {b b'} (ps) : R b b' → Rebuilt R (.lambda ps b) (.lambda ps b')
  | scan {s s'} (a t) : R s s' → Rebuilt R (.scan s a t) (.scan s' a t)
  | filter {i p i' p'} : R i i' → R p p' → Rebuilt R (.filter i p) (.filter i' p')
  | project {i i'} {cs cs' : List Column} {gs gs'} (a d) : R i i' →
      List.Forall₂ (fun c c' => c'.name = c.name ∧ R c.expr c'.expr) cs cs' →
      List.Forall₂ R gs gs' → Rebuilt R (.project a i cs d gs) (.project a i' cs' d gs')
  | order {i i'} {ks ks' : List OrderKey} : R i i' →
      List.Forall₂ (fun k k' => k'.direction = k.direction ∧ R k.expr k'.expr) ks ks' →
      Rebuilt R (.order i ks) (.order i' ks')
  | limit {i i' t t' s s'} : R i i' → Option.Rel R t t' → Option.Rel R s s' →
      Rebuilt R (.limit i t s) (.limit i' t' s')
  | join {l l' r r' o o'} (k) : R l l' → R r r' → Option.Rel R o o' →
      Rebuilt R (.join k l r o) (.join k l' r' o')
  | setOp {l l' r r'} (op all a) : R l l' → R r r' →
      Rebuilt R (.setOp op all l r a) (.setOp op all l' r' a)

section Rebuilt

variable {R : Expr → Expr → Prop} {e e' : Expr}

/-- Rebuilding keeps relations and scalars apart. -/
theorem Rebuilt.isRelational_eq (h : Rebuilt R e e') : e'.isRelational = e.isRelational := by
  cases h <;> rfl

/-- Rebuilding keeps aggregates aggregates. -/
theorem Rebuilt.isAggregate_eq (h : Rebuilt R e e') : e'.isAggregate = e.isAggregate := by
  cases h <;> rfl

theorem forall₂_toList {α β : Type} {S : α → β → Prop} {o : Option α} {o' : Option β}
    (h : Option.Rel S o o') : List.Forall₂ S o.toList o'.toList := by
  cases h with
  | none => exact .nil
  | some h => exact .cons h .nil

/-- The subtrees correspond in order. -/
theorem Rebuilt.children (h : Rebuilt R e e') : List.Forall₂ R e.children e'.children := by
  cases h with
  | const | param | column => exact .nil
  | member _ _ h | unary _ _ h | lambda _ h | scan _ _ h => exact .cons h .nil
  | binary _ _ hl hr | setOp _ _ _ hl hr => exact .cons hl (.cons hr .nil)
  | filter hl hr => exact .cons hl (.cons hr .nil)
  | call _ _ h => exact h
  | aggregate _ _ _ h => exact forall₂_toList h
  | project _ _ hi hcs hgs =>
    refine .cons hi (List.rel_append ?_ hgs)
    rw [List.forall₂_map_left_iff, List.forall₂_map_right_iff]
    exact hcs.imp fun _ _ h => h.2
  | order hi hks =>
    refine .cons hi ?_
    rw [List.forall₂_map_left_iff, List.forall₂_map_right_iff]
    exact hks.imp fun _ _ h => h.2
  | limit hi ht hs => exact .cons hi (List.rel_append (forall₂_toList ht) (forall₂_toList hs))
  | join _ hl hr ho => exact .cons hl (.cons hr (forall₂_toList ho))

/-- Whether a tree has aggregates is seen at its root and in its subtrees. -/
theorem Rebuilt.hasAggregate_eq (h : Rebuilt (fun c c' => c'.hasAggregate = c.hasAggregate) e e') :
    e'.hasAggregate = e.hasAggregate := by
  have hany : ∀ {l l' : List Expr},
      List.Forall₂ (fun c c' => c'.hasAggregate = c.hasAggregate) l l' →
        l'.any hasAggregate = l.any hasAggregate := by
    intro l l' hl
    induction hl with
    | nil => rfl
    | cons hc _ ih => rw [List.any_cons, List.any_cons, hc, ih]
  rw [Expr.hasAggregate_eq, Expr.hasAggregate_eq e, h.isAggregate_eq, hany h.children]

theorem optionRel_imp {α β : Type} {S S' : α → β → Prop} {o : Option α} {o' : Option β}
    (h : Option.Rel S o o') (himp : ∀ a b, a ∈ o → S a b → S' a b) : Option.Rel S' o o' := by
  cases h with
  | none => exact .none
  | some h => exact .some (himp _ _ rfl h)

theorem forall₂_imp_of_mem {α β : Type} {S S' : α → β → Prop} {l : List α} {l' : List β}
    (h : List.Forall₂ S l l') (himp : ∀ a b, a ∈ l → S a b → S' a b) : List.Forall₂ S' l l' :=
  (forall₂_and_mem h).imp fun a b hab => himp a b hab.2.1 hab.1

/-- A correspondence of the subtrees at hand can be exchanged for a weaker one. -/
theorem Rebuilt.imp {R' : Expr → Expr → Prop} (h : Rebuilt R e e')
    (himp : ∀ c ∈ e.children, ∀ c', R c c' → R' c c') : Rebuilt R' e e' := by
  cases h with
  | const v t => exact .const v t
  | param n t => exact .param n t
  | column a n t => exact .column a n t
  | member n t h => exact .member n t (himp _ (by simp [Expr.children]) _ h)
  | binary op t hl hr =>
    exact .binary op t (himp _ (by simp [Expr.children]) _ hl) (himp _ (by simp [Expr.children]) _ hr)
  | unary op t h => exact .unary op t (himp _ (by simp [Expr.children]) _ h)
  | call n t h => exact .call n t (forall₂_imp_of_mem h fun c c' hc => himp c hc c')
  | aggregate f d t h =>
    exact .aggregate f d t (optionRel_imp h fun c c' hc => himp c (Option.mem_toList.2 hc) c')
  | lambda ps h => exact .lambda ps (himp _ (by simp [Expr.children]) _ h)
  | scan a t h => exact .scan a t (himp _ (by simp [Expr.children]) _ h)
  | filter hi hp =>
    exact .filter (himp _ (by simp [Expr.children]) _ hi) (himp _ (by simp [Expr.children]) _ hp)
  | project a d hi hcs hgs =>
    refine .project a d (himp _ (by simp [Expr.children]) _ hi)
      (forall₂_imp_of_mem hcs fun c c' hc h => ⟨h.1, himp _ ?_ _ h.2⟩)
      (forall₂_imp_of_mem hgs fun g g' hg h => himp g ?_ g' h)
    · have hmem := List.mem_map_of_mem (f := fun c : Column => c.expr) hc
      exact List.mem_cons_of_mem _ (List.mem_append_left _ hmem)
    · exact List.mem_cons_of_mem _ (List.mem_append_right _ hg)
  | order hi hks =>
    refine .order (himp _ (by simp [Expr.children]) _ hi)
      (forall₂_imp_of_mem hks fun k k' hk h => ⟨h.1, himp _ ?_ _ h.2⟩)
    exact List.mem_cons_of_mem _ (List.mem_map_of_mem (f := fun k : OrderKey => k.expr) hk)
  | limit hi ht hs =>
    refine .limit (himp _ (by simp [Expr.children]) _ hi)
      (optionRel_imp ht fun c c' hc => himp c ?_ c') (optionRel_imp hs fun c c' hc => himp c ?_ c')
    · exact List.mem_cons_of_mem _ (List.mem_append_left _ (Option.mem_toList.2 hc))
    · exact List.mem_cons_of_mem _ (List.mem_append_right _ (Option.mem_toList.2 hc))
  | join k hl hr ho =>
    refine .join k (himp _ (by simp [Expr.children]) _ hl) (himp _ (by simp [Expr.children]) _ hr)
      (optionRel_imp ho fun c c' hc => himp c ?_ c')
    exact List.mem_cons_of_mem _ (List.mem_cons_of_mem _ (Option.mem_toList.2 hc))
  | setOp op all a hl hr =>
    exact .setOp op all a (himp _ (by simp [Expr.children]) _ hl)
      (himp _ (by simp [Expr.children]) _ hr)

/-- The columns of a scalar node are its own and those of its subtrees. -/
theorem columnRefs_eq_flatMap (hrel : e.isRelational = false) (hcol : ∀ a n t, e ≠ .column a n t) :
    e.columnRefs = e.children.flatMap columnRefs := by
  cases e with
  | column a n t => exact absurd rfl (hcol a n t)
  | call n es t => rw [columnRefs, columnRefsList_eq]; rfl
  | aggregate f a d t => rw [columnRefs, columnRefsOption_eq]; rfl
  | const | param | member | binary | unary | lambda => simp [columnRefs, Expr.children]
  | scan | filter | project | order | limit | join | setOp => cases hrel

/-- A relation refers to no column of the rows around it. -/
theorem columnRefs_of_isRelational (hrel : e.isRelational = true) : e.columnRefs = [] := by
  cases e <;> first | rfl | cases hrel

/-- A rebuilt node refers to no more columns when its subtrees do not. An inner query has no
references and a column has no subtrees; every other node has the references of its subtrees. -/
theorem Rebuilt.columnRefs_subset (h : Rebuilt R e e')
    (hR : ∀ c ∈ e.children, ∀ c', R c c' → ∀ ref ∈ c'.columnRefs, ref ∈ c.columnRefs) :
    ∀ ref ∈ e'.columnRefs, ref ∈ e.columnRefs := by
  intro ref href
  cases hrel : e.isRelational with
  | true =>
    rw [columnRefs_of_isRelational (h.isRelational_eq.trans hrel)] at href
    cases href
  | false =>
    by_cases hcol : ∃ a n t, e = .column a n t
    · obtain ⟨a, n, t, rfl⟩ := hcol
      cases h
      exact href
    · have hcol' : ∀ a n t, e' ≠ .column a n t := by
        rintro a n t rfl
        cases h
        exact hcol ⟨a, n, t, rfl⟩
      rw [columnRefs_eq_flatMap (h.isRelational_eq.trans hrel) hcol'] at href
      rw [columnRefs_eq_flatMap hrel fun a n t heq => hcol ⟨a, n, t, heq⟩]
      obtain ⟨c', hc', href⟩ := List.mem_flatMap.1 href
      obtain ⟨c, hc, hcc'⟩ := exists_rel_of_mem_right h.children hc'
      exact List.mem_flatMap.2 ⟨c, hc, hR c hc c' hcc' ref href⟩

end Rebuilt

/-! ### Changing subtrees -/

section MapChildren

variable {ε : Type} {g : Expr → Except ε Expr}

/-- An optional subtree is rebuilt as the subtree is. -/
theorem mapOptionM_eq_ok_iff {o o' : Option Expr} :
    mapOptionM g o = .ok o' ↔ Option.Rel (fun c c' => g c = .ok c') o o' := by
  cases o with
  | none =>
    constructor
    · intro h
      obtain rfl := pure_eq_ok_iff.1 h
      exact .none
    · intro h
      cases h
      rfl
  | some e =>
    constructor
    · intro h
      obtain ⟨e', he', h⟩ := bind_eq_ok_iff.1 h
      obtain rfl := pure_eq_ok_iff.1 h
      exact .some he'
    · intro h
      cases h with
      | some he' => exact bind_eq_ok_iff.2 ⟨_, he', rfl⟩

theorem exists_column_eq_iff {c c' : Column} :
    (∃ e', g c.expr = .ok e' ∧ (⟨c.name, e'⟩ : Column) = c') ↔
      c'.name = c.name ∧ g c.expr = .ok c'.expr := by
  constructor
  · rintro ⟨e', he', rfl⟩
    exact ⟨rfl, he'⟩
  · rintro ⟨hname, he'⟩
    exact ⟨c'.expr, he', by rw [← hname]⟩

theorem exists_key_eq_iff {k k' : OrderKey} :
    (∃ e', g k.expr = .ok e' ∧ (⟨e', k.direction⟩ : OrderKey) = k') ↔
      k'.direction = k.direction ∧ g k.expr = .ok k'.expr := by
  constructor
  · rintro ⟨e', he', rfl⟩
    exact ⟨rfl, he'⟩
  · rintro ⟨hdirection, he'⟩
    exact ⟨k'.expr, he', by rw [← hdirection]⟩

/-- A walk that succeeds has rebuilt the node from the results on its subtrees. -/
theorem rebuilt_of_mapChildrenM {e e' : Expr} (h : e.mapChildrenM g = .ok e') :
    Rebuilt (fun c c' => g c = .ok c') e e' := by
  cases e <;>
    simp only [mapChildrenM, bind_eq_ok_iff, pure_eq_ok_iff, mapOptionM_eq_ok_iff, mapM_eq_ok_iff,
      exists_column_eq_iff, exists_key_eq_iff] at h
  case const => subst h; exact .const _ _
  case param => subst h; exact .param _ _
  case column => subst h; exact .column _ _ _
  case member => obtain ⟨_, h1, rfl⟩ := h; exact .member _ _ h1
  case binary => obtain ⟨_, h1, _, h2, rfl⟩ := h; exact .binary _ _ h1 h2
  case unary => obtain ⟨_, h1, rfl⟩ := h; exact .unary _ _ h1
  case call => obtain ⟨_, h1, rfl⟩ := h; exact .call _ _ h1
  case aggregate => obtain ⟨_, h1, rfl⟩ := h; exact .aggregate _ _ _ h1
  case lambda => obtain ⟨_, h1, rfl⟩ := h; exact .lambda _ h1
  case scan => obtain ⟨_, h1, rfl⟩ := h; exact .scan _ _ h1
  case filter => obtain ⟨_, h1, _, h2, rfl⟩ := h; exact .filter h1 h2
  case project => obtain ⟨_, h1, _, h2, _, h3, rfl⟩ := h; exact .project _ _ h1 h2 h3
  case order => obtain ⟨_, h1, _, h2, rfl⟩ := h; exact .order h1 h2
  case limit => obtain ⟨_, h1, _, h2, _, h3, rfl⟩ := h; exact .limit h1 h2 h3
  case join => obtain ⟨_, h1, _, h2, _, h3, rfl⟩ := h; exact .join _ h1 h2 h3
  case setOp => obtain ⟨_, h1, _, h2, rfl⟩ := h; exact .setOp _ _ _ h1 h2

/-- And where each subtree has a result, the walk succeeds with the node rebuilt from them. -/
theorem mapChildrenM_of_rebuilt {e e' : Expr} (h : Rebuilt (fun c c' => g c = .ok c') e e') :
    e.mapChildrenM g = .ok e' := by
  cases h <;>
    simp only [mapChildrenM, bind_eq_ok_iff, pure_eq_ok_iff, mapOptionM_eq_ok_iff, mapM_eq_ok_iff,
      exists_column_eq_iff, exists_key_eq_iff]
  case member h1 => exact ⟨_, h1, rfl⟩
  case binary h1 h2 => exact ⟨_, h1, _, h2, rfl⟩
  case unary h1 => exact ⟨_, h1, rfl⟩
  case call h1 => exact ⟨_, h1, rfl⟩
  case aggregate h1 => exact ⟨_, h1, rfl⟩
  case lambda h1 => exact ⟨_, h1, rfl⟩
  case scan h1 => exact ⟨_, h1, rfl⟩
  case filter h1 h2 => exact ⟨_, h1, _, h2, rfl⟩
  case project h1 h2 h3 => exact ⟨_, h1, _, h2, _, h3, rfl⟩
  case order h1 h2 => exact ⟨_, h1, _, h2, rfl⟩
  case limit h1 h2 h3 => exact ⟨_, h1, _, h2, _, h3, rfl⟩
  case join h1 h2 h3 => exact ⟨_, h1, _, h2, _, h3, rfl⟩
  case setOp h1 h2 => exact ⟨_, h1, _, h2, rfl⟩

/-- A change of the subtrees succeeds when each one does, and leaves the node otherwise as it is. -/
theorem mapChildrenM_eq_ok_iff {e e' : Expr} :
    e.mapChildrenM g = .ok e' ↔ Rebuilt (fun c c' => g c = .ok c') e e' :=
  ⟨rebuilt_of_mapChildrenM, mapChildrenM_of_rebuilt⟩

/-- A walk over a tree changes the node that its changed subtrees make. -/
theorem transformUpM_eq_ok_iff {e e' : Expr} :
    e.transformUpM g = .ok e' ↔
      ∃ rebuilt, Rebuilt (fun c c' => c.transformUpM g = .ok c') e rebuilt ∧
        g rebuilt = .ok e' := by
  rw [transformUpM_eq, bind_eq_ok_iff]
  simp only [mapChildrenM_eq_ok_iff]

end MapChildren

/-! ### A total change of the subtrees -/

section Rebuild

variable {R : Expr → Expr → Prop}

theorem forall₂_map_self {α β : Type} {S : α → β → Prop} {f : α → β} {l : List α}
    (h : ∀ a ∈ l, S a (f a)) : List.Forall₂ S l (l.map f) :=
  List.forall₂_map_right_iff.2 (List.forall₂_same.2 h)

theorem optionRel_map_self {α β : Type} {S : α → β → Prop} {f : α → β} {o : Option α}
    (h : ∀ a ∈ o, S a (f a)) : Option.Rel S o (o.map f) := by
  cases o with
  | none => exact .none
  | some a => exact .some (h a rfl)

/-- A change of the subtrees leaves the node otherwise as it is. This brings walks that rewrite
subtrees under the lemmas on `Rebuilt`. -/
theorem rebuilt_mapChildren {g : Expr → Expr} {e : Expr} (h : ∀ c ∈ e.children, R c (g c)) :
    Rebuilt R e (e.mapChildren g) := by
  cases e with
  | const v t => exact .const v t
  | param n t => exact .param n t
  | column a n t => exact .column a n t
  | member e n t => exact .member n t (h _ (by simp [children]))
  | binary op l r t => exact .binary op t (h _ (by simp [children])) (h _ (by simp [children]))
  | unary op e t => exact .unary op t (h _ (by simp [children]))
  | call n es t =>
    rw [mapChildren_call]
    exact .call n t (forall₂_map_self h)
  | aggregate f a d t =>
    rw [mapChildren_aggregate]
    exact .aggregate f d t (optionRel_map_self fun c hc => h c (Option.mem_toList.2 hc))
  | lambda ps b => exact .lambda ps (h _ (by simp [children]))
  | scan s a t => exact .scan a t (h _ (by simp [children]))
  | filter i p => exact .filter (h _ (by simp [children])) (h _ (by simp [children]))
  | project a i cs d gs =>
    rw [mapChildren_project]
    refine .project a d (h _ (by simp [children])) (forall₂_map_self fun c hc => ⟨rfl, h _ ?_⟩)
      (forall₂_map_self fun g hg => h g ?_)
    · have hmem := List.mem_map_of_mem (f := fun c : Column => c.expr) hc
      exact List.mem_cons_of_mem _ (List.mem_append_left _ hmem)
    · exact List.mem_cons_of_mem _ (List.mem_append_right _ hg)
  | order i ks =>
    rw [mapChildren_order]
    refine .order (h _ (by simp [children])) (forall₂_map_self fun k hk => ⟨rfl, h _ ?_⟩)
    exact List.mem_cons_of_mem _ (List.mem_map_of_mem (f := fun k : OrderKey => k.expr) hk)
  | limit i t s =>
    rw [mapChildren_limit]
    refine .limit (h _ (by simp [children])) (optionRel_map_self fun c hc => h c ?_)
      (optionRel_map_self fun c hc => h c ?_)
    · exact List.mem_cons_of_mem _ (List.mem_append_left _ (Option.mem_toList.2 hc))
    · exact List.mem_cons_of_mem _ (List.mem_append_right _ (Option.mem_toList.2 hc))
  | join k l r o =>
    rw [mapChildren_join]
    refine .join k (h _ (by simp [children])) (h _ (by simp [children]))
      (optionRel_map_self fun c hc => h c ?_)
    exact List.mem_cons_of_mem _ (List.mem_cons_of_mem _ (Option.mem_toList.2 hc))
  | setOp op all l r a =>
    exact .setOp op all a (h _ (by simp [children])) (h _ (by simp [children]))

/-- A walk that changes nothing gives the tree back. -/
theorem mapChildren_id (e : Expr) : e.mapChildren id = e := by
  cases e <;> simp [ColumnOf.map, KeyOf.map]

/-- Changes that agree on the direct subtrees of a node change the node alike. -/
theorem mapChildren_congr {f g : Expr → Expr} {e : Expr} (h : ∀ c ∈ e.children, f c = g c) :
    e.mapChildren f = e.mapChildren g := by
  let changed : Expr → Except Unit Expr := fun c => .ok (g c)
  have hf : Rebuilt (fun c c' => changed c = .ok c') e (e.mapChildren f) :=
    rebuilt_mapChildren fun c hc => congrArg _ (h c hc).symm
  have hg : Rebuilt (fun c c' => changed c = .ok c') e (e.mapChildren g) :=
    rebuilt_mapChildren fun _ _ => rfl
  exact Except.ok.inj ((mapChildrenM_of_rebuilt hf).symm.trans (mapChildrenM_of_rebuilt hg))

/-- A node corresponds to itself when its subtrees do. -/
theorem rebuilt_self {e : Expr} (h : ∀ c ∈ e.children, R c c) : Rebuilt R e e := by
  have hid := rebuilt_mapChildren (g := id) h
  rwa [mapChildren_id] at hid

/-- The subtrees of the new node are the new subtrees. -/
theorem children_mapChildren (g : Expr → Expr) (e : Expr) :
    (e.mapChildren g).children = e.children.map g := by
  have h : List.Forall₂ (fun c c' => g c = c') e.children (e.mapChildren g).children :=
    (rebuilt_mapChildren fun _ _ => rfl).children
  rw [← List.forall₂_map_left_iff (f := g) (R := fun c c' => c = c'), List.forall₂_eq_eq_eq] at h
  exact h.symm

end Rebuild

/-! ### Computing aggregates -/

section Reduce

variable {ε : Type} {f f' : Expr → Except ε Expr}

/-- The step of a walk that changes aggregates only, and each to something without columns. -/
structure ReducesAggregates (f : Expr → Except ε Expr) : Prop where
  other : ∀ e : Expr, e.isAggregate = false → f e = .ok e
  aggregate : ∀ e x : Expr, e.isAggregate = true → f e = .ok x → x.columnRefs = []

/-- What is left of an expression after its aggregates are computed refers to no new columns. -/
theorem columnRefs_reduced (hf : ReducesAggregates f) {e x : Expr} (h : e.transformUpM f = .ok x) :
    ∀ ref ∈ x.columnRefs, ref ∈ e.columnRefs := by
  induction e using childInduction generalizing x with
  | h e ih =>
    obtain ⟨y, hy, hx⟩ := transformUpM_eq_ok_iff.1 h
    cases hagg : e.isAggregate with
    | true =>
      rw [hf.aggregate y x (hy.isAggregate_eq.trans hagg) hx]
      exact fun ref href => absurd href List.not_mem_nil
    | false =>
      rw [hf.other y (hy.isAggregate_eq.trans hagg)] at hx
      obtain rfl := Except.ok.inj hx
      exact hy.columnRefs_subset fun c hc c' hcc' => ih c hc hcc'

/-- Two walks come to the same result when they compute each aggregate alike. -/
theorem transformUpM_below (hf : ReducesAggregates f) (hf' : ReducesAggregates f') {e : Expr}
    (h : ∀ n ∈ e.nodes, n.isAggregate = true → ∀ y,
      Rebuilt (fun c c' => c.transformUpM f = .ok c') n y → Below (f y) (f' y)) :
    Below (e.transformUpM f) (e.transformUpM f') := by
  induction e using childInduction with
  | h e ih =>
    intro x hx
    obtain ⟨y, hy, hx⟩ := transformUpM_eq_ok_iff.1 hx
    refine transformUpM_eq_ok_iff.2 ⟨y, hy.imp fun c hc c' hcc' => ?_, ?_⟩
    · exact ih c hc (fun n hn => h n (mem_nodes_of_mem_children hc hn)) c' hcc'
    · cases hagg : e.isAggregate with
      | true => exact h e (mem_nodes_self e) hagg y hy x hx
      | false =>
        have hy' := hy.isAggregate_eq.trans hagg
        rw [hf.other y hy'] at hx
        rw [hf'.other y hy', hx]

end Reduce

end Expr

end QueryTree
