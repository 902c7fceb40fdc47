import QueryTree.Expr.Equality
import QueryTree.Proofs.Tree

/-!
# When equality of trees is identity

Equality of trees is the equality of values at the leaves, and that one is not identity: the two
zeros of the doubles are equal. Doubles are the only exception. Values without them, and trees
without them in their constants, are the same as soon as they are equal (`Value.exact`,
`Expr.eq_of_beq_eq_true`).
-/

namespace QueryTree

namespace Value

mutual

/-- There is a double in the value, or inside of it. -/
def holdsFloat : Value → Bool
  | .float _ => true
  | .record fields => holdsFloatFields fields
  | .list items => holdsFloatList items
  | .rows ⟨_, cells⟩ => holdsFloatRows cells
  | .null | .bool _ | .int _ | .text _ | .bytes _ | .date _ | .time _ | .dateTime _ | .source _
  | .provider _ => false

/-- A double in one of the fields. -/
def holdsFloatFields : List (String × Value) → Bool
  | [] => false
  | (_, v) :: rest => holdsFloat v || holdsFloatFields rest

/-- A double in one of the values. -/
def holdsFloatList : List Value → Bool
  | [] => false
  | v :: rest => holdsFloat v || holdsFloatList rest

/-- A double in one of the cells. -/
def holdsFloatRows : List (List Value) → Bool
  | [] => false
  | row :: rest => holdsFloatList row || holdsFloatRows rest

end

section Induction

variable {P : Value → Prop}
  (null : P .null) (bool : ∀ b, P (.bool b)) (int : ∀ n, P (.int n)) (float : ∀ x, P (.float x))
  (text : ∀ s, P (.text s)) (bytes : ∀ data, P (.bytes data)) (date : ∀ d, P (.date d))
  (time : ∀ t, P (.time t)) (dateTime : ∀ dt, P (.dateTime dt))
  (record : ∀ fields : List (String × Value), (∀ f ∈ fields, P f.2) → P (.record fields))
  (list : ∀ items : List Value, (∀ v ∈ items, P v) → P (.list items))
  (rows : ∀ columns (cells : List Row), (∀ row ∈ cells, ∀ v ∈ row, P v) → P (.rows ⟨columns, cells⟩))
  (source : ∀ s, P (.source s)) (provider : ∀ p, P (.provider p))

include null bool int float text bytes date time dateTime record list rows source provider

/-- Induction over a value, by membership in records, lists and row sets. -/
@[elab_as_elim]
theorem valueInduction (v : Value) : P v :=
  @Value.rec P (fun fields => ∀ f ∈ fields, P f.2) (fun items => ∀ v ∈ items, P v)
    (fun set => ∀ row ∈ set.rows, ∀ v ∈ row, P v) (fun f => P f.2)
    (fun cells => ∀ row ∈ cells, ∀ v ∈ row, P v)
    null bool int float text bytes date time dateTime record list (fun set => rows set.1 set.2)
    source provider
    (fun _ h => nomatch h)
    (fun _ _ hf hfs _ h => (List.mem_cons.1 h).elim (fun h => h ▸ hf) (hfs _))
    (fun _ h => nomatch h)
    (fun _ _ hv hvs _ h => (List.mem_cons.1 h).elim (fun h => h ▸ hv) (hvs _))
    (fun _ _ h => h)
    (fun _ _ h => h)
    (fun _ h => nomatch h)
    (fun _ _ hr hrs _ h => (List.mem_cons.1 h).elim (fun h => h ▸ hr) (hrs _))
    v

end Induction

/-- Once equal to it, `v` is the same as a value. -/
def Exact (v : Value) : Prop := v.holdsFloat = false → ∀ w, beq v w = true → v = w

/-- Lists without doubles that are equal are the same. -/
theorem eq_of_beqList {vs ws : List Value} (ih : ∀ v ∈ vs, Exact v)
    (hf : holdsFloatList vs = false) (h : beqList vs ws = true) : vs = ws := by
  induction vs generalizing ws with
  | nil => cases ws with
    | nil => rfl
    | cons _ _ => cases h
  | cons v vs ihvs =>
    cases ws with
    | nil => cases h
    | cons w ws =>
      obtain ⟨hv, hvs⟩ := Bool.and_eq_true_iff.1 h
      obtain ⟨hfv, hfvs⟩ := Bool.or_eq_false_iff.1 hf
      obtain ⟨ihv, ih⟩ := List.forall_mem_cons.1 ih
      rw [ihv hfv w hv, ihvs ih hfvs hvs]

/-- Records without doubles that are equal are the same. -/
theorem eq_of_beqFields {vs ws : List (String × Value)} (ih : ∀ f ∈ vs, Exact f.2)
    (hf : holdsFloatFields vs = false) (h : beqFields vs ws = true) : vs = ws := by
  induction vs generalizing ws with
  | nil => cases ws with
    | nil => rfl
    | cons _ _ => cases h
  | cons v vs ihvs =>
    cases ws with
    | nil => cases h
    | cons w ws =>
      obtain ⟨n, v⟩ := v
      obtain ⟨n', w⟩ := w
      simp only [beqFields, Bool.and_eq_true, beq_iff_eq] at h
      obtain ⟨⟨rfl, hv⟩, hvs⟩ := h
      obtain ⟨hfv, hfvs⟩ := Bool.or_eq_false_iff.1 hf
      obtain ⟨ihv, ih⟩ := List.forall_mem_cons.1 ih
      rw [ihvs ih hfvs hvs]
      rw [show v = w from ihv hfv w hv]

/-- Tables without doubles that are equal are the same. -/
theorem eq_of_beqRows {vs ws : List Row} (ih : ∀ row ∈ vs, ∀ v ∈ row, Exact v)
    (hf : holdsFloatRows vs = false) (h : beqRows vs ws = true) : vs = ws := by
  induction vs generalizing ws with
  | nil => cases ws with
    | nil => rfl
    | cons _ _ => cases h
  | cons v vs ihvs =>
    cases ws with
    | nil => cases h
    | cons w ws =>
      obtain ⟨hv, hvs⟩ := Bool.and_eq_true_iff.1 h
      obtain ⟨hfv, hfvs⟩ := Bool.or_eq_false_iff.1 hf
      obtain ⟨ihv, ih⟩ := List.forall_mem_cons.1 ih
      rw [eq_of_beqList ihv hfv hv, ihvs ih hfvs hvs]

/-- A value without doubles is the same as any value it is equal to. -/
theorem exact (v : Value) : Exact v := by
  induction v using valueInduction with
  | float x => intro hf; cases hf
  | record fields ih =>
    intro hf w h
    cases w with
    | record fields' => rw [eq_of_beqFields ih hf h]
    | _ => cases h
  | list items ih =>
    intro hf w h
    cases w with
    | list items' => rw [eq_of_beqList ih hf h]
    | _ => cases h
  | rows columns cells ih =>
    intro hf w h
    cases w with
    | rows set =>
      obtain ⟨columns', cells'⟩ := set
      obtain ⟨hcolumns, hcells⟩ := Bool.and_eq_true_iff.1 h
      rw [eq_of_beq hcolumns, eq_of_beqRows ih hf hcells]
    | _ => cases h
  | null => intro _ w h; cases w <;> first | rfl | cases h
  | _ x => intro _ w h; cases w <;> first | cases h | exact congrArg _ (eq_of_beq h)

end Value

namespace Expr

/-- The node is a constant with a double in it. -/
def isFloatConstant : Expr → Bool
  | const v _ => v.holdsFloat
  | _ => false

/-- Some constant of the tree has a double in it. -/
def holdsFloat (e : Expr) : Bool := e.any isFloatConstant

/-- A tree holds a double in a constant at its root or in a subtree. -/
theorem holdsFloat_eq (e : Expr) :
    e.holdsFloat = (e.isFloatConstant || e.children.any holdsFloat) := any_eq isFloatConstant e

/-- The direct subtrees of a tree without doubles have none. -/
theorem holdsFloat_of_mem_children {e c : Expr} (h : e.holdsFloat = false) (hc : c ∈ e.children) :
    c.holdsFloat = false := by
  rw [holdsFloat_eq, Bool.or_eq_false_iff, List.any_eq_false] at h
  exact Bool.eq_false_iff.2 (h.2 c hc)

section Lists

/-- Lists of expressions are the same if their members are. -/
theorem eq_of_beqList {es es' : List Expr}
    (ih : ∀ e ∈ es, ∀ e', beq e e' = true → e = e') (h : beqList es es' = true) : es = es' := by
  induction es generalizing es' with
  | nil => cases es' with
    | nil => rfl
    | cons _ _ => cases h
  | cons e es ihes =>
    cases es' with
    | nil => cases h
    | cons e' es' =>
      obtain ⟨he, hes⟩ := Bool.and_eq_true_iff.1 h
      obtain ⟨ihe, ih⟩ := List.forall_mem_cons.1 ih
      rw [ihe e' he, ihes ih hes]

/-- Optional expressions are the same if they are there and the same. -/
theorem eq_of_beqOption {o o' : Option Expr}
    (ih : ∀ e ∈ o, ∀ e', beq e e' = true → e = e') (h : beqOption o o' = true) : o = o' := by
  cases o with
  | none => cases o' with
    | none => rfl
    | some _ => cases h
  | some e =>
    cases o' with
    | none => cases h
    | some e' => rw [ih e rfl e' h]

/-- Columns are the same if their names and expressions are. -/
theorem eq_of_beqColumns {cs cs' : List Column}
    (ih : ∀ c ∈ cs, ∀ e', beq c.expr e' = true → c.expr = e') (h : beqColumns cs cs' = true) :
    cs = cs' := by
  induction cs generalizing cs' with
  | nil => cases cs' with
    | nil => rfl
    | cons _ _ => cases h
  | cons c cs ihcs =>
    cases cs' with
    | nil => cases h
    | cons c' cs' =>
      obtain ⟨n, e⟩ := c
      obtain ⟨n', e'⟩ := c'
      simp only [beqColumns, Bool.and_eq_true, beq_iff_eq] at h
      obtain ⟨ihc, ih⟩ := List.forall_mem_cons.1 ih
      obtain rfl : e = e' := ihc e' h.1.2
      rw [h.1.1, ihcs ih h.2]

/-- Ordering keys are the same if their expressions and directions are. -/
theorem eq_of_beqKeys {ks ks' : List OrderKey}
    (ih : ∀ k ∈ ks, ∀ e', beq k.expr e' = true → k.expr = e') (h : beqKeys ks ks' = true) :
    ks = ks' := by
  induction ks generalizing ks' with
  | nil => cases ks' with
    | nil => rfl
    | cons _ _ => cases h
  | cons k ks ihks =>
    cases ks' with
    | nil => cases h
    | cons k' ks' =>
      obtain ⟨e, d⟩ := k
      obtain ⟨e', d'⟩ := k'
      simp only [beqKeys, Bool.and_eq_true, beq_iff_eq] at h
      obtain ⟨ihk, ih⟩ := List.forall_mem_cons.1 ih
      obtain rfl : e = e' := ihk e' h.1.1
      rw [h.1.2, ihks ih h.2]

end Lists

/-- Without doubles, the tree is the same as any tree it is equal to. -/
def Exact (e : Expr) : Prop := e.holdsFloat = false → ∀ e', beq e e' = true → e = e'

/-- A subtree of a tree without doubles has none. -/
theorem Exact.child {e c : Expr} (hx : Exact c) (hf : e.holdsFloat = false) (hc : c ∈ e.children)
    (e' : Expr) : beq c e' = true → c = e' :=
  hx (holdsFloat_of_mem_children hf hc) e'

/-- Two trees that are equal, of which one holds no double, are the same tree. -/
theorem exact (e : Expr) : Exact e := by
  induction e using treeInduction with
  | const v t =>
    intro hf e' h
    rw [holdsFloat_eq] at hf
    cases e' <;> simp only [beq, Bool.and_eq_true, beq_iff_eq, Bool.false_eq_true] at h
    rw [v.exact (Bool.or_eq_false_iff.1 hf).1 _ h.1, h.2]
  | param n t =>
    intro hf e' h
    cases e' <;> simp only [beq, Bool.and_eq_true, beq_iff_eq, Bool.false_eq_true] at h
    rw [h.1, h.2]
  | column a n t =>
    intro hf e' h
    cases e' <;> simp only [beq, Bool.and_eq_true, beq_iff_eq, Bool.false_eq_true] at h
    rw [h.1.1, h.1.2, h.2]
  | member e n t ih =>
    intro hf e' h
    cases e' <;> simp only [beq, Bool.and_eq_true, beq_iff_eq, Bool.false_eq_true] at h
    rw [ih.child hf List.mem_cons_self _ h.1.1, h.1.2, h.2]
  | binary op l r t ihl ihr =>
    intro hf e' h
    cases e' <;> simp only [beq, Bool.and_eq_true, beq_iff_eq, Bool.false_eq_true] at h
    rw [h.1.1.1, ihl.child hf (by simp [children]) _ h.1.1.2,
      ihr.child hf (by simp [children]) _ h.1.2, h.2]
  | unary op e t ih =>
    intro hf e' h
    cases e' <;> simp only [beq, Bool.and_eq_true, beq_iff_eq, Bool.false_eq_true] at h
    rw [h.1.1, ih.child hf List.mem_cons_self _ h.1.2, h.2]
  | call n es t ih =>
    intro hf e' h
    cases e' <;> simp only [beq, Bool.and_eq_true, beq_iff_eq, Bool.false_eq_true] at h
    have hes := eq_of_beqList (fun e he => (ih e he).child hf he) h.1.2
    rw [h.1.1, hes, h.2]
  | aggregate f a d t ih =>
    intro hf e' h
    cases e' <;> simp only [beq, Bool.and_eq_true, beq_iff_eq, Bool.false_eq_true] at h
    have ha := eq_of_beqOption (fun e he => (ih e he).child hf (Option.mem_toList.2 he)) h.1.1.2
    rw [h.1.1.1, ha, h.1.2, h.2]
  | lambda ps b ih =>
    intro hf e' h
    cases e' <;> simp only [beq, Bool.and_eq_true, beq_iff_eq, Bool.false_eq_true] at h
    rw [h.1, ih.child hf List.mem_cons_self _ h.2]
  | scan s a t ih =>
    intro hf e' h
    cases e' <;> simp only [beq, Bool.and_eq_true, beq_iff_eq, Bool.false_eq_true] at h
    rw [ih.child hf List.mem_cons_self _ h.1.1, h.1.2, h.2]
  | filter i p ihi ihp =>
    intro hf e' h
    cases e' <;> simp only [beq, Bool.and_eq_true, Bool.false_eq_true] at h
    rw [ihi.child hf (by simp [children]) _ h.1, ihp.child hf (by simp [children]) _ h.2]
  | project a i cs d gs ihi ihcs ihgs =>
    intro hf e' h
    cases e' <;> simp only [beq, Bool.and_eq_true, beq_iff_eq, Bool.false_eq_true] at h
    have hi := ihi.child hf (by simp [children]) _ h.1.1.1.2
    have hcs := eq_of_beqColumns
      (fun c hc => (ihcs c hc).child hf (by
        simp only [children, List.cons_append, List.mem_cons, List.mem_append, List.mem_map]
        exact .inr (.inl ⟨c, hc, rfl⟩))) h.1.1.2
    have hgs := eq_of_beqList (fun g hg => (ihgs g hg).child hf (by simp [children, hg])) h.2
    rw [h.1.1.1.1, hi, hcs, h.1.2, hgs]
  | order i ks ihi ihks =>
    intro hf e' h
    cases e' <;> simp only [beq, Bool.and_eq_true, Bool.false_eq_true] at h
    have hks := eq_of_beqKeys (fun k hk => (ihks k hk).child hf
      (List.mem_cons_of_mem _ (List.mem_map_of_mem hk))) h.2
    rw [ihi.child hf List.mem_cons_self _ h.1, hks]
  | limit i t s ihi iht ihs =>
    intro hf e' h
    cases e' <;> simp only [beq, Bool.and_eq_true, Bool.false_eq_true] at h
    have ht := eq_of_beqOption (fun e he => (iht e he).child hf (by simp_all [children])) h.1.2
    have hs := eq_of_beqOption (fun e he => (ihs e he).child hf (by simp_all [children])) h.2
    rw [ihi.child hf (by simp [children]) _ h.1.1, ht, hs]
  | join k l r o ihl ihr iho =>
    intro hf e' h
    cases e' <;> simp only [beq, Bool.and_eq_true, beq_iff_eq, Bool.false_eq_true] at h
    have ho := eq_of_beqOption (fun e he => (iho e he).child hf (by simp_all [children])) h.2
    rw [h.1.1.1, ihl.child hf (by simp [children]) _ h.1.1.2,
      ihr.child hf (by simp [children]) _ h.1.2, ho]
  | setOp op all l r a ihl ihr =>
    intro hf e' h
    cases e' <;> simp only [beq, Bool.and_eq_true, beq_iff_eq, Bool.false_eq_true] at h
    rw [h.1.1.1.1, h.1.1.1.2, ihl.child hf (by simp [children]) _ h.1.1.2,
      ihr.child hf (by simp [children]) _ h.1.2, h.2]

/-- Equal trees are the same if the first has no doubles. -/
theorem eq_of_beq_eq_true {e e' : Expr} (hf : e.holdsFloat = false) (h : (e == e') = true) :
    e = e' :=
  e.exact hf e' h

end Expr

end QueryTree
