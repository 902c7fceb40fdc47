import QueryTree.Expr.Traverse
import QueryTree.Scalar.Substitute

/-!
# Induction over query trees

A tree nests in itself directly and through lists, options, columns and keys. `Expr.treeInduction`
is the induction that a reader would write down: the property of a node from the property of its
direct subtrees, with membership in place of the nested recursors.

The walks over trees have companions for lists, options, columns and keys. Each companion is the
walk mapped over its list, which is what the lemmas after the induction say, so that later proofs
see no companion. For the list of all nodes there is one equation for every constructor
(`nodes_eq_cons`), and with it one for every search through a tree (`any_eq`).
-/

namespace QueryTree

/-- A column with its expression changed. -/
def ColumnOf.map {α β : Type} (f : α → β) (c : ColumnOf α) : ColumnOf β := ⟨c.name, f c.expr⟩

/-- A key with its expression changed. -/
def KeyOf.map {α β : Type} (f : α → β) (k : KeyOf α) : KeyOf β := ⟨f k.expr, k.direction⟩

@[simp] theorem ColumnOf.map_name {α β : Type} (f : α → β) (c : ColumnOf α) :
    (c.map f).name = c.name := rfl

@[simp] theorem ColumnOf.map_expr {α β : Type} (f : α → β) (c : ColumnOf α) :
    (c.map f).expr = f c.expr := rfl

@[simp] theorem KeyOf.map_expr {α β : Type} (f : α → β) (k : KeyOf α) :
    (k.map f).expr = f k.expr := rfl

@[simp] theorem KeyOf.map_direction {α β : Type} (f : α → β) (k : KeyOf α) :
    (k.map f).direction = k.direction := rfl

namespace Expr

/-! ### The induction -/

section Induction

variable {P : Expr → Prop}
  (const : ∀ v t, P (.const v t))
  (param : ∀ n t, P (.param n t))
  (member : ∀ e n t, P e → P (.member e n t))
  (column : ∀ a n t, P (.column a n t))
  (binary : ∀ op l r t, P l → P r → P (.binary op l r t))
  (unary : ∀ op e t, P e → P (.unary op e t))
  (call : ∀ n es t, (∀ e ∈ es, P e) → P (.call n es t))
  (aggregate : ∀ f a d t, (∀ e ∈ a, P e) → P (.aggregate f a d t))
  (lambda : ∀ ps b, P b → P (.lambda ps b))
  (scan : ∀ s a t, P s → P (.scan s a t))
  (filter : ∀ i p, P i → P p → P (.filter i p))
  (project : ∀ a i cs d gs, P i → (∀ c ∈ cs, P c.expr) → (∀ g ∈ gs, P g) → P (.project a i cs d gs))
  (order : ∀ i ks, P i → (∀ k ∈ ks, P k.expr) → P (.order i ks))
  (limit : ∀ i t s, P i → (∀ e ∈ t, P e) → (∀ e ∈ s, P e) → P (.limit i t s))
  (join : ∀ k l r o, P l → P r → (∀ e ∈ o, P e) → P (.join k l r o))
  (setOp : ∀ op all l r a, P l → P r → P (.setOp op all l r a))

include const param member column binary unary call aggregate lambda scan filter project order limit
  join setOp

/-- Induction over a tree, by membership where it nests through a list or an option. -/
@[elab_as_elim]
theorem treeInduction (e : Expr) : P e :=
  @Expr.rec P (fun es => ∀ e ∈ es, P e) (fun o => ∀ e ∈ o, P e) (fun cs => ∀ c ∈ cs, P c.expr)
    (fun ks => ∀ k ∈ ks, P k.expr) (fun c => P c.expr) (fun k => P k.expr)
    const param member column binary unary call aggregate lambda scan filter project order limit
    join setOp
    (fun _ h => nomatch h)
    (fun _ _ he hes _ h => (List.mem_cons.1 h).elim (fun h => h ▸ he) (hes _))
    (fun _ h => nomatch h)
    (fun _ he _ h => Option.mem_some.1 h ▸ he)
    (fun _ h => nomatch h)
    (fun _ _ hc hcs _ h => (List.mem_cons.1 h).elim (fun h => h ▸ hc) (hcs _))
    (fun _ h => nomatch h)
    (fun _ _ hk hks _ h => (List.mem_cons.1 h).elim (fun h => h ▸ hk) (hks _))
    (fun _ _ he => he)
    (fun _ _ he => he)
    e

end Induction

/-! ### All nodes -/

/-- The nodes of several trees. -/
theorem nodesList_eq (es : List Expr) : nodesList es = es.flatMap nodes := by
  induction es with
  | nil => rfl
  | cons e es ih => rw [nodesList, ih, List.flatMap_cons]

/-- The nodes of an optional tree. -/
theorem nodesOption_eq (o : Option Expr) : nodesOption o = o.toList.flatMap nodes := by
  cases o with
  | none => rfl
  | some e => simp [nodesOption]

/-- The nodes of columns. -/
theorem nodesColumns_eq (cs : List Column) :
    nodesColumns cs = (cs.map (·.expr)).flatMap nodes := by
  induction cs with
  | nil => rfl
  | cons c cs ih => rw [nodesColumns, ih, List.map_cons, List.flatMap_cons]

/-- The nodes of ordering keys. -/
theorem nodesKeys_eq (ks : List OrderKey) : nodesKeys ks = (ks.map (·.expr)).flatMap nodes := by
  induction ks with
  | nil => rfl
  | cons k ks ih => rw [nodesKeys, ih, List.map_cons, List.flatMap_cons]

/-- A tree's nodes are its root and the nodes of its direct subtrees. -/
theorem nodes_eq_cons (e : Expr) : e.nodes = e :: e.children.flatMap nodes := by
  cases e <;>
    simp [nodes, children, nodesList_eq, nodesOption_eq, nodesColumns_eq, nodesKeys_eq,
      List.flatMap_cons, List.flatMap_append]

/-- A tree is one of its nodes. -/
theorem mem_nodes_self (e : Expr) : e ∈ e.nodes := by
  rw [nodes_eq_cons]
  exact List.mem_cons_self

/-- The nodes of a direct subtree are nodes of the tree. -/
theorem mem_nodes_of_mem_children {e c n : Expr} (hc : c ∈ e.children) (hn : n ∈ c.nodes) :
    n ∈ e.nodes := by
  rw [nodes_eq_cons]
  exact List.mem_cons_of_mem _ (List.mem_flatMap.2 ⟨c, hc, hn⟩)

/-- A property of all nodes is one of the root and of all nodes of the direct subtrees. -/
theorem forall_mem_nodes_iff {P : Expr → Prop} {e : Expr} :
    (∀ n ∈ e.nodes, P n) ↔ P e ∧ ∀ c ∈ e.children, ∀ n ∈ c.nodes, P n := by
  rw [nodes_eq_cons, List.forall_mem_cons]
  refine and_congr_right fun _ => ?_
  constructor
  · intro h c hc n hn
    exact h n (List.mem_flatMap.2 ⟨c, hc, hn⟩)
  · intro h n hn
    obtain ⟨c, hc, hn⟩ := List.mem_flatMap.1 hn
    exact h c hc n hn

/-- A search through a tree looks at its root and searches its direct subtrees. -/
theorem any_eq (p : Expr → Bool) (e : Expr) : e.any p = (p e || e.children.any (any p)) := by
  rw [any, nodes_eq_cons, List.any_cons, List.any_flatMap]
  rfl

/-- An aggregate is at the root or in a subtree. -/
theorem hasAggregate_eq (e : Expr) :
    e.hasAggregate = (e.isAggregate || e.children.any hasAggregate) := any_eq isAggregate e

/-! ### Changing every node -/

section TransformM

variable {m : Type → Type} [Monad m] [LawfulMonad m] (f : Expr → m Expr)

theorem transformUpListM_eq (es : List Expr) :
    transformUpListM f es = es.mapM (transformUpM f) := by
  induction es with
  | nil => simp [transformUpListM]
  | cons e es ih => simp only [transformUpListM, ih, List.mapM_cons]

omit [LawfulMonad m] in
theorem transformUpOptionM_eq (o : Option Expr) :
    transformUpOptionM f o = mapOptionM (transformUpM f) o := by
  cases o with
  | none => rfl
  | some e => rfl

theorem transformUpColumnsM_eq (cs : List Column) :
    transformUpColumnsM f cs =
      cs.mapM fun c => do return ⟨c.name, ← transformUpM f c.expr⟩ := by
  induction cs with
  | nil => simp [transformUpColumnsM]
  | cons c cs ih => simp [transformUpColumnsM, ih, List.mapM_cons]

theorem transformUpKeysM_eq (ks : List OrderKey) :
    transformUpKeysM f ks =
      ks.mapM fun k => do return ⟨← transformUpM f k.expr, k.direction⟩ := by
  induction ks with
  | nil => simp [transformUpKeysM]
  | cons k ks ih => simp [transformUpKeysM, ih, List.mapM_cons]

/-- A change of every node changes the root after its direct subtrees. -/
theorem transformUpM_eq (e : Expr) :
    transformUpM f e = (e.mapChildrenM (transformUpM f) >>= f) := by
  cases e <;>
    simp [transformUpM, mapChildrenM, transformUpListM_eq, transformUpOptionM_eq,
      transformUpColumnsM_eq, transformUpKeysM_eq]

end TransformM

section Transform

variable (f : Expr → Expr)

/-- A change of every node changes the root after its direct subtrees. -/
theorem transformUp_eq (e : Expr) : e.transformUp f = f (e.mapChildren (transformUp f)) :=
  transformUpM_eq (m := Id) (fun node => pure (f node)) e

end Transform

@[simp] theorem mapOptionM_id (f : Expr → Expr) (o : Option Expr) :
    Id.run (mapOptionM (fun c => pure (f c)) o) = o.map f := by
  cases o <;> rfl

section MapChildren

variable (f : Expr → Expr)

@[simp] theorem mapChildren_const (v : Value) (t : LogicalType) :
    (const v t).mapChildren f = const v t := rfl

@[simp] theorem mapChildren_param (n : String) (t : LogicalType) :
    (param n t).mapChildren f = param n t := rfl

@[simp] theorem mapChildren_column (a n : String) (t : LogicalType) :
    (column a n t).mapChildren f = column a n t := rfl

@[simp] theorem mapChildren_member (e : Expr) (n : String) (t : LogicalType) :
    (member e n t).mapChildren f = member (f e) n t := rfl

@[simp] theorem mapChildren_binary (op : BinaryOperator) (l r : Expr) (t : LogicalType) :
    (binary op l r t).mapChildren f = binary op (f l) (f r) t := rfl

@[simp] theorem mapChildren_unary (op : UnaryOperator) (e : Expr) (t : LogicalType) :
    (unary op e t).mapChildren f = unary op (f e) t := rfl

@[simp] theorem mapChildren_call (n : String) (es : List Expr) (t : LogicalType) :
    (call n es t).mapChildren f = call n (es.map f) t := by
  simp [mapChildren, mapChildrenM]

@[simp] theorem mapChildren_aggregate (fn : AggregateFunction) (a : Option Expr) (d : Bool)
    (t : LogicalType) : (aggregate fn a d t).mapChildren f = aggregate fn (a.map f) d t := by
  cases a <;> rfl

@[simp] theorem mapChildren_lambda (ps : List Parameter) (b : Expr) :
    (lambda ps b).mapChildren f = lambda ps (f b) := rfl

@[simp] theorem mapChildren_scan (s : Expr) (a : String) (t : LogicalType) :
    (scan s a t).mapChildren f = scan (f s) a t := rfl

@[simp] theorem mapChildren_filter (i p : Expr) :
    (filter i p).mapChildren f = filter (f i) (f p) := rfl

@[simp] theorem mapChildren_project (a : String) (i : Expr) (cs : List Column) (d : Bool)
    (gs : List Expr) :
    (project a i cs d gs).mapChildren f = project a (f i) (cs.map (·.map f)) d (gs.map f) := by
  simp [mapChildren, mapChildrenM, ColumnOf.map]

@[simp] theorem mapChildren_order (i : Expr) (ks : List OrderKey) :
    (order i ks).mapChildren f = order (f i) (ks.map (·.map f)) := by
  simp [mapChildren, mapChildrenM, KeyOf.map]

@[simp] theorem mapChildren_limit (i : Expr) (t s : Option Expr) :
    (limit i t s).mapChildren f = limit (f i) (t.map f) (s.map f) := by
  cases t <;> cases s <;> rfl

@[simp] theorem mapChildren_join (k : JoinKind) (l r : Expr) (o : Option Expr) :
    (join k l r o).mapChildren f = join k (f l) (f r) (o.map f) := by
  cases o <;> rfl

@[simp] theorem mapChildren_setOp (op : SetOperator) (all : Bool) (l r : Expr) (a : String) :
    (setOp op all l r a).mapChildren f = setOp op all (f l) (f r) a := rfl

/-- Changing the subtrees twice is changing them once by both. -/
theorem mapChildren_mapChildren (f g : Expr → Expr) (e : Expr) :
    (e.mapChildren f).mapChildren g = e.mapChildren fun c => g (f c) := by
  cases e <;> simp [ColumnOf.map, KeyOf.map, Function.comp_def]

end MapChildren

/-! ### Replacing the outermost nodes -/

section Replace

variable (f : Expr → Option Expr)

theorem replaceOutermostList_eq (es : List Expr) :
    replaceOutermostList f es = es.map (replaceOutermost f) := by
  induction es with
  | nil => rfl
  | cons e es ih => rw [replaceOutermostList, ih, List.map_cons]

theorem replaceOutermostOption_eq (o : Option Expr) :
    replaceOutermostOption f o = o.map (replaceOutermost f) := by
  cases o <;> rfl

theorem replaceOutermostColumns_eq (cs : List Column) :
    replaceOutermostColumns f cs = cs.map (·.map (replaceOutermost f)) := by
  induction cs with
  | nil => rfl
  | cons c cs ih => rw [replaceOutermostColumns, ih, List.map_cons]; rfl

theorem replaceOutermostKeys_eq (ks : List OrderKey) :
    replaceOutermostKeys f ks = ks.map (·.map (replaceOutermost f)) := by
  induction ks with
  | nil => rfl
  | cons k ks ih => rw [replaceOutermostKeys, ih, List.map_cons]; rfl

/-- A node is replaced as it stands in the tree, or else its direct subtrees are gone through. -/
theorem replaceOutermost_eq (e : Expr) :
    e.replaceOutermost f = (f e).getD (e.mapChildren (replaceOutermost f)) := by
  cases e <;>
    simp [replaceOutermost, replaceOutermostList_eq, replaceOutermostOption_eq,
      replaceOutermostColumns_eq, replaceOutermostKeys_eq]

end Replace

/-! ### Substitution -/

section Substitute

variable (bs : Bindings)

@[simp] theorem substituteList_eq (es : List Expr) :
    substituteList bs es = es.map (substitute bs) := by
  induction es with
  | nil => rfl
  | cons e es ih => rw [substituteList, ih, List.map_cons]

@[simp] theorem substituteOption_eq (o : Option Expr) :
    substituteOption bs o = o.map (substitute bs) := by
  cases o <;> rfl

@[simp] theorem substituteColumns_eq (cs : List Column) :
    substituteColumns bs cs = cs.map (·.map (substitute bs)) := by
  induction cs with
  | nil => rfl
  | cons c cs ih => rw [substituteColumns, ih, List.map_cons]; rfl

@[simp] theorem substituteKeys_eq (ks : List OrderKey) :
    substituteKeys bs ks = ks.map (·.map (substitute bs)) := by
  induction ks with
  | nil => rfl
  | cons k ks ih => rw [substituteKeys, ih, List.map_cons]; rfl

/-- Except at a parameter and under a lambda, substitution is a change of the subtrees. -/
theorem substitute_cases (e : Expr) :
    (∃ n t, e = .param n t) ∨ (∃ ps b, e = .lambda ps b) ∨
      e.substitute bs = e.mapChildren (substitute bs) := by
  cases e with
  | param n t => exact .inl ⟨n, t, rfl⟩
  | lambda ps b => exact .inr (.inl ⟨ps, b, rfl⟩)
  | _ => exact .inr (.inr (by simp [substitute]))

end Substitute

end Expr

end QueryTree
