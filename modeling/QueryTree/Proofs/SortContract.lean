import QueryTree.Proofs.Rows

/-!
# What is asked of a sort

Rows are sorted by a comparison of their key values. On keys of one kind the comparison is a total
preorder, and a stable sort has one result. On others it need not be: a text is level with every
number, and a NaN with every double. What a sort makes of such keys is open. It may leave the rows
in any order, and it may give up. A `Sorter` is a sort of which no more is known than this.

The interpreter is written here with a sorter in place of its sort (`Sorter.relation`,
`Sorter.run`). With the sort by insertion it is the interpreter itself (`Sorter.run_stable`), and
with any sorter it is so on a tree whose orderings all compare by an order
(`Sorter.run_of_keysOrdered`). So a statement about every sorter holds of the interpreter, and of
the interpreter with another sort in it. The first of them is that relations are rectangular
(`Sorter.relation_rectangular`).
-/

namespace QueryTree

/-! ### Errors in another form -/

namespace Attempt

variable {ε ε' ε'' α β : Type} {f : ε → ε'}

/-- The second computation is the first one, with its errors in another form. -/
def Mirrors (f : ε → ε') (x : Except ε α) (x' : Except ε' α) : Prop := x' = x.mapError f

theorem Mirrors.pure (a : α) : Mirrors f (Pure.pure a) (Pure.pure a) := rfl

/-- Computations in sequence are mirrored one by one. -/
theorem Mirrors.bind {x : Except ε α} {x' : Except ε' α} {g : α → Except ε β}
    {g' : α → Except ε' β} (hx : Mirrors f x x')
    (hg : ∀ a, x = .ok a → Mirrors f (g a) (g' a)) : Mirrors f (x >>= g) (x' >>= g') := by
  unfold Mirrors at hx
  subst hx
  cases x with
  | error e => rfl
  | ok a => exact hg a rfl

/-- Two changes of form, one after the other, are one. -/
theorem Mirrors.mapError {f' : ε' → ε''} {x : Except ε α} {x' : Except ε'' α}
    (h : Mirrors (fun e => f' (f e)) x x') : Mirrors f' (x.mapError f) x' := by
  cases x with
  | error e => exact h
  | ok a => exact h

/-- A result does not depend on the form of the errors. -/
@[simp] theorem mapError_eq_ok_iff {x : Except ε α} {a : α} : x.mapError f = .ok a ↔ x = .ok a := by
  cases x <;> simp [Except.mapError]

end Attempt

open Attempt

/-! ### Sorters -/

/-- A row with the values of its keys. -/
abbrev Keyed := List Value × Row

/-- A sort by a comparison, which may give up. It neither adds nor drops elements. Where the
comparison is an order on the elements it gives them in that order, level ones as they stood. -/
structure Sorter where
  sort : (Keyed → Keyed → Ordering) → List Keyed → Option (List Keyed)
  perm : ∀ {cmp xs ys}, sort cmp xs = some ys → ys.Perm xs
  sorts : ∀ {cmp xs}, Relation.OrderOn cmp xs → sort cmp xs = some (Relation.sortBy cmp xs)

/-- A comparison that is reversed from the other side and transitive on the elements. -/
def comparesInOrder (cmp : Keyed → Keyed → Ordering) (xs : List Keyed) : Bool :=
  xs.all fun a => xs.all fun b =>
    cmp a b == (cmp b a).swap &&
      xs.all fun c => !(cmp a b).isLE || !(cmp b c).isLE || (cmp a c).isLE

/-- A comparison by an order passes the test of the strict sorter. -/
theorem comparesInOrder_of_orderOn {cmp : Keyed → Keyed → Ordering} {xs : List Keyed}
    (h : Relation.OrderOn cmp xs) : comparesInOrder cmp xs = true := by
  obtain ⟨order, _, heq⟩ := h
  refine List.all_eq_true.2 fun a ha => List.all_eq_true.2 fun b hb => ?_
  rw [Bool.and_eq_true, beq_iff_eq, List.all_eq_true, heq a ha b hb, heq b hb a ha]
  refine ⟨Std.OrientedCmp.eq_swap, fun c hc => ?_⟩
  rw [heq b hb c hc, heq a ha c hc]
  have htrans : (order a b).isLE = true → (order b c).isLE = true → (order a c).isLE = true :=
    Std.TransCmp.isLE_trans
  cases hab : (order a b).isLE with
  | false => rfl
  | true =>
    cases hbc : (order b c).isLE with
    | false => rfl
    | true => simpa using htrans hab hbc

namespace Sorter

/-- The sort by insertion, which never gives up. -/
def stable : Sorter where
  sort cmp xs := some (Relation.sortBy cmp xs)
  perm h := Option.some.inj h ▸ Relation.stableSort_perm _ _
  sorts _ := rfl

/-- A sort that gives up on a comparison that is no order. -/
def strict : Sorter where
  sort cmp xs := if comparesInOrder cmp xs then some (Relation.sortBy cmp xs) else none
  perm h := by
    obtain ⟨_, heq⟩ := Option.ite_none_right_eq_some.1 h
    exact Option.some.inj heq ▸ Relation.stableSort_perm _ _
  sorts h := if_pos (comparesInOrder_of_orderOn h)

end Sorter

/-! ### The interpreter over a sorter -/

/-- How a run ends without a result: with a fault, or at rows that could not be sorted. -/
inductive Halt where
  | fault (f : Fault)
  | unsorted

namespace Sorter

open QueryTree.Relation (liftEval withKeys compareKeys)

variable (S : Sorter)

/-- The rows of a relation sorted by the values of their keys. -/
def arrange (r : Relation) (keys : List OrderKey) (keyed : List Keyed) : Except Halt Relation :=
  match S.sort (fun a b => compareKeys (keys.map (·.direction)) a.1 b.1) keyed with
  | some sorted => .ok { r with rows := sorted.map (·.2) }
  | none => .error .unsorted

/-- Sort the rows by keys, the first key first. -/
def sortRows (r : Relation) (keys : List OrderKey) : Except Halt Relation := do
  let keyed ← (liftEval (r.rows.mapM (withKeys r.columns keys))).mapError .fault
  S.arrange r keys keyed

/-- The relation that a relational tree denotes. Only an ordering sorts. -/
def relation (tables : Tables) : Expr → Except Halt Relation
  | .filter input predicate => do
    let r ← relation tables input
    let rows ← (liftEval (Relation.filterRows r.columns predicate r.rows)).mapError .fault
    return { r with rows }
  | .project qualifier input columns distinct groupBy => do
    let r ← relation tables input
    (r.project qualifier columns distinct groupBy).mapError .fault
  | .order input keys => do
    S.sortRows (← relation tables input) keys
  | .limit input take skip => do
    let r ← relation tables input
    let skipped ← (Expr.rowCount skip).mapError .fault
    let taken ← (Expr.rowCount take).mapError .fault
    return { r with rows := Expr.window skipped taken r.rows }
  | .join kind left right on => do
    let l ← relation tables left
    let r ← relation tables right
    (Relation.join kind l r on).mapError .fault
  | .setOp op all left right qualifier => do
    let l ← relation tables left
    let r ← relation tables right
    (Relation.setOperation op all qualifier l r).mapError .fault
  | e => (e.relation tables).mapError .fault

/-- The value of a tree: a row set when it is relational, else a scalar. -/
def run (tables : Tables) (e : Expr) : Except Halt Value :=
  if e.isRelational then return .rows (← S.relation tables e).toRowSet
  else (liftEval (e.evaluate .empty)).mapError .fault

/-! ### Sorting rows -/

variable {S} {r s : Relation} {ks : List OrderKey}

open QueryTree.Relation (OrderOn Defined sortBy rowCompare mapM_withKeys_eq_ok_iff
  compareKeys_valueOn)

/-- Rows that are sorted have values of all keys, and are the rows that were there. -/
theorem of_sortRows_eq_ok (h : S.sortRows r ks = .ok s) :
    (∀ k ∈ ks, Defined r.columns k.expr r.rows) ∧ s.columns = r.columns ∧ s.rows.Perm r.rows := by
  obtain ⟨keyed, hkeyed, h⟩ := bind_eq_ok_iff.1 h
  rw [mapError_eq_ok_iff, liftEval_eq_ok_iff, mapM_withKeys_eq_ok_iff] at hkeyed
  obtain ⟨hdef, rfl⟩ := hkeyed
  unfold arrange at h
  split at h
  next sorted hsorted =>
    obtain rfl := Except.ok.inj h
    refine ⟨hdef, rfl, ?_⟩
    have hperm := (S.perm hsorted).map (·.2)
    rwa [List.map_map, List.map_id''] at hperm
    exact fun _ => rfl
  next => cases h

/-- A sorter that gives the stable sort of the rows with their keys sorts them as the interpreter
does. -/
theorem sortRows_of_sorts
    (h : ∀ keyed, r.rows.mapM (withKeys r.columns ks) = .ok keyed →
      S.sort (fun a b => compareKeys (ks.map (·.direction)) a.1 b.1) keyed =
        some (sortBy (fun a b => compareKeys (ks.map (·.direction)) a.1 b.1) keyed)) :
    Mirrors Halt.fault (liftEval (r.sort ks)) (S.sortRows r ks) := by
  unfold Mirrors sortRows Relation.sort
  cases hkeyed : r.rows.mapM (withKeys r.columns ks) with
  | error e => rfl
  | ok keyed =>
    change S.arrange r ks keyed = _
    rw [arrange, h keyed hkeyed]
    rfl

/-- A comparison that orders elements orders their images, when it compares these as it compares
the elements. -/
theorem orderOn_map {α β : Type} {cmp : α → α → Ordering} {cmp' : β → β → Ordering} {xs : List α}
    {f : α → β} (g : β → α) (hg : ∀ a, g (f a) = a) (hcmp : ∀ a b, cmp' (f a) (f b) = cmp a b)
    (h : OrderOn cmp xs) : OrderOn cmp' (xs.map f) := by
  obtain ⟨order, _, heq⟩ := h
  have hswap : ∀ a b, order (g a) (g b) = (order (g b) (g a)).swap :=
    fun _ _ => Std.OrientedCmp.eq_swap
  have htrans : ∀ a b c, (order (g a) (g b)).isLE → (order (g b) (g c)).isLE →
      (order (g a) (g c)).isLE := fun _ _ _ => Std.TransCmp.isLE_trans
  refine ⟨fun a b => order (g a) (g b), { eq_swap := hswap _ _, isLE_trans := htrans _ _ _ }, ?_⟩
  refine List.forall_mem_map.2 fun a ha => List.forall_mem_map.2 fun b hb => ?_
  rw [hcmp, heq a ha b hb]
  dsimp only
  rw [hg, hg]

/-- Every sorter sorts rows that the keys order. -/
theorem sortRows_of_orderOn (h : OrderOn (rowCompare r.columns ks) r.rows) :
    Mirrors Halt.fault (liftEval (r.sort ks)) (S.sortRows r ks) := by
  refine sortRows_of_sorts fun keyed hkeyed => S.sorts ?_
  obtain ⟨_, rfl⟩ := mapM_withKeys_eq_ok_iff.1 hkeyed
  exact orderOn_map (·.2) (fun _ => rfl) (fun a b => compareKeys_valueOn ks a b) h

/-! ### Orderings of a tree -/

/-- What holds of each ordering of a tree: of the relation that it orders, and its keys. -/
def EachOrdering (P : Relation → List OrderKey → Prop) (tables : Tables) : Expr → Prop
  | .filter input _ | .limit input _ _ | .project _ input _ _ _ => EachOrdering P tables input
  | .order input ks =>
    EachOrdering P tables input ∧ ∀ r, input.relation tables = .ok r → P r ks
  | .join _ left right _ | .setOp _ _ left right _ =>
    EachOrdering P tables left ∧ EachOrdering P tables right
  | _ => True

/-- Each ordering of the tree compares its rows by an order. -/
def KeysOrdered (tables : Tables) (e : Expr) : Prop :=
  EachOrdering (fun r ks => OrderOn (rowCompare r.columns ks) r.rows) tables e

section EachOrdering

variable {P Q : Relation → List OrderKey → Prop} {tables : Tables} {e : Expr}

/-- What holds of all relations and keys holds of each ordering. -/
theorem eachOrdering_of_forall (h : ∀ r ks, P r ks) (e : Expr) : EachOrdering P tables e := by
  induction e using Expr.treeInduction with
  | filter input _ ih _ => exact ih
  | project _ input _ _ _ ih _ _ => exact ih
  | limit input _ _ ih _ _ => exact ih
  | order input ks ih _ => exact ⟨ih, fun r _ => h r ks⟩
  | join _ left right _ ihl ihr _ => exact ⟨ihl, ihr⟩
  | setOp _ _ left right _ ihl ihr => exact ⟨ihl, ihr⟩
  | _ => trivial

/-- What holds of each ordering may be weakened. -/
theorem EachOrdering.imp (hPQ : ∀ r ks, P r ks → Q r ks) (h : EachOrdering P tables e) :
    EachOrdering Q tables e := by
  induction e using Expr.treeInduction with
  | filter input _ ih _ => exact ih h
  | project _ input _ _ _ ih _ _ => exact ih h
  | limit input _ _ ih _ _ => exact ih h
  | order input ks ih _ => exact ⟨ih h.1, fun r hr => hPQ r ks (h.2 r hr)⟩
  | join _ left right _ ihl ihr _ => exact ⟨ihl h.1, ihr h.2⟩
  | setOp _ _ left right _ ihl ihr => exact ⟨ihl h.1, ihr h.2⟩
  | _ => trivial

/-- A sorter that sorts at each ordering as the interpreter does computes the same relation, or ends
with the same fault. -/
theorem relation_mirrors
    (h : EachOrdering (fun r ks => Mirrors Halt.fault (liftEval (r.sort ks)) (S.sortRows r ks))
      tables e) :
    Mirrors Halt.fault (e.relation tables) (S.relation tables e) := by
  induction e using Expr.treeInduction with
  | filter input p ih _ =>
    refine (ih h).bind fun r _ => ?_
    exact Mirrors.bind rfl fun rows _ => .pure _
  | project qualifier input cs distinct gs ih _ _ => exact (ih h).bind fun r _ => rfl
  | order input ks ih _ => exact (ih h.1).bind fun r hr => h.2 r hr
  | limit input take skip ih _ _ =>
    refine (ih h).bind fun r _ => ?_
    exact Mirrors.bind rfl fun skipped _ => Mirrors.bind rfl fun taken _ => .pure _
  | join kind left right on ihl ihr _ =>
    exact (ihl h.1).bind fun l _ => (ihr h.2).bind fun r _ => rfl
  | setOp op all left right qualifier ihl ihr =>
    exact (ihl h.1).bind fun l _ => (ihr h.2).bind fun r _ => rfl
  | _ => rfl

/-- A run mirrors the other if the relations do. -/
theorem run_of_relation_mirrors (h : Mirrors Halt.fault (e.relation tables) (S.relation tables e)) :
    S.run tables e = (e.run tables).mapError .fault := by
  unfold run Expr.run
  split
  · exact h.bind fun r _ => .pure _
  · rfl

end EachOrdering

/-! ### The interpreter and its sort -/

variable {tables : Tables} {e : Expr}

/-- The insertion sort gives the relations of the program. -/
theorem relation_stable (tables : Tables) (e : Expr) :
    Mirrors Halt.fault (e.relation tables) (stable.relation tables e) :=
  relation_mirrors (eachOrdering_of_forall (fun _ _ => sortRows_of_sorts fun _ _ => rfl) e)

/-- With the sort by insertion this is the interpreter. -/
theorem run_stable (tables : Tables) (e : Expr) :
    stable.run tables e = (e.run tables).mapError .fault :=
  run_of_relation_mirrors (relation_stable tables e)

/-- So does every sorter, where each ordering compares by an order. -/
theorem relation_of_keysOrdered (h : KeysOrdered tables e) :
    Mirrors Halt.fault (e.relation tables) (S.relation tables e) :=
  relation_mirrors (h.imp fun _ _ => sortRows_of_orderOn)

/-- Where each ordering compares by an order, all sorters give the result of the interpreter. -/
theorem run_of_keysOrdered (h : KeysOrdered tables e) :
    S.run tables e = (e.run tables).mapError .fault :=
  run_of_relation_mirrors (relation_of_keysOrdered h)

/-- A relational tree runs to the row set of its relation. -/
theorem run_eq_ok_iff (he : e.isRelational = true) {v : Value} :
    S.run tables e = .ok v ↔ ∃ r, S.relation tables e = .ok r ∧ .rows r.toRowSet = v := by
  rw [run, if_pos he, bind_eq_ok_iff]
  simp only [pure_eq_ok_iff]

/-! ### Rectangular relations -/

/-- Over rectangular tables every relation is rectangular, whatever the sort. By induction on the
tree. A sort returns the rows that it is given, and of the sort nothing else is used. -/
theorem relation_rectangular (ht : tables.Rectangular) (h : S.relation tables e = .ok r) :
    r.Rectangular := by
  induction e using Expr.treeInduction generalizing r with
  | scan source qualifier t _ =>
    obtain ⟨set, name, hset, rfl⟩ := Expr.relation_scan_eq_ok (mapError_eq_ok_iff.1 h)
    intro row hrow
    rw [List.length_map]
    exact ht _ hset row hrow
  | filter input p ih _ =>
    obtain ⟨r, hr, h⟩ := bind_eq_ok_iff.1 h
    obtain ⟨rows, hrows, h⟩ := bind_eq_ok_iff.1 h
    obtain rfl := pure_eq_ok_iff.1 h
    rw [mapError_eq_ok_iff, liftEval_eq_ok_iff, Relation.filterRows_eq_ok_iff] at hrows
    obtain ⟨_, rfl⟩ := hrows
    exact fun row hrow => ih hr row (List.mem_filter.1 hrow).1
  | project qualifier input cs distinct gs _ _ _ =>
    obtain ⟨r, _, h⟩ := bind_eq_ok_iff.1 h
    obtain ⟨rows, hrows, h⟩ := bind_eq_ok_iff.1 (mapError_eq_ok_iff.1 h)
    obtain rfl := pure_eq_ok_iff.1 h
    intro row hrow
    rw [List.length_map]
    exact Relation.length_of_mem_projectRows hrows row (Relation.mem_of_mem_distinct hrow)
  | order input ks ih _ =>
    obtain ⟨r, hr, h⟩ := bind_eq_ok_iff.1 h
    obtain ⟨_, hcolumns, hperm⟩ := of_sortRows_eq_ok h
    intro row hrow
    rw [hcolumns]
    exact ih hr row (hperm.mem_iff.1 hrow)
  | limit input take skip ih _ _ =>
    obtain ⟨r, hr, h⟩ := bind_eq_ok_iff.1 h
    obtain ⟨skipped, _, h⟩ := bind_eq_ok_iff.1 h
    obtain ⟨taken, _, h⟩ := bind_eq_ok_iff.1 h
    obtain rfl := pure_eq_ok_iff.1 h
    exact fun row hrow => ih hr row ((Expr.window_sublist _ _ _).subset hrow)
  | join kind left right on ihl ihr _ =>
    obtain ⟨l, hl, h⟩ := bind_eq_ok_iff.1 h
    obtain ⟨r, hr, h⟩ := bind_eq_ok_iff.1 h
    exact Relation.join_rectangular (ihl hl) (ihr hr) (mapError_eq_ok_iff.1 h)
  | setOp op all left right qualifier ihl ihr =>
    obtain ⟨l, hl, h⟩ := bind_eq_ok_iff.1 h
    obtain ⟨r, hr, h⟩ := bind_eq_ok_iff.1 h
    exact Relation.setOperation_rectangular (ihl hl) (ihr hr) (mapError_eq_ok_iff.1 h)
  | _ => cases h

end Sorter

/-- Over rectangular tables every relation is rectangular. -/
theorem Expr.relation_rectangular {tables : Tables} (ht : tables.Rectangular) {e : Expr}
    {r : Relation} (h : relation tables e = .ok r) : r.Rectangular :=
  Sorter.relation_rectangular ht ((Sorter.relation_stable tables e).trans (mapError_eq_ok_iff.2 h))

end QueryTree
