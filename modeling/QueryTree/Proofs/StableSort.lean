import Mathlib.Data.List.Forall2
import QueryTree.Memory.Relation

/-!
# Stable sorting

Sorting by a comparison is pinned down by two facts: the result is in order, and the elements level
with any given one stand in it as they stood in the input (`IsStableSort`). No two lists meet both
(`IsStableSort.unique`), so each law of sorting is proved by checking them on its right-hand side:

* what is in order stays as it is (`sortBy_of_pairwise`);
* sorting commutes with selecting elements (`sortBy_filter`);
* sorting by one comparison and then by another is sorting once, by the second with ties broken by
  the first (`sortBy_sortBy`).

For these the comparison has to be a total preorder on the elements at hand (`OrderOn`). That lists
whose elements correspond stay so when both are sorted (`sortBy_rel`, `sortBy_map`), and that
sorting only moves elements (`stableSort_perm`), needs no such assumption.
-/

namespace QueryTree.Relation

variable {α β : Type}

/-! ### Without an order -/

section Precedes

variable (p : α → α → Bool)

/-- Insertion adds the element and loses none. -/
theorem insertDown_perm (x : α) (ys : List α) : (insertDown p x ys).Perm (x :: ys) := by
  induction ys with
  | nil => exact .refl _
  | cons y ys ih =>
    unfold insertDown
    split
    · exact (ih.cons y).trans (.swap x y ys)
    · exact .refl _

/-- So do insertions one after the other. -/
theorem foldl_insertDown_perm (xs acc : List α) :
    (xs.foldl (fun sorted x => insertDown p x sorted) acc).Perm (xs ++ acc) := by
  induction xs generalizing acc with
  | nil => exact .refl _
  | cons x xs ih =>
    have hx := (insertDown_perm p x acc).append_left xs
    exact (ih _).trans (hx.trans List.perm_middle)

/-- Sorting moves elements, and neither adds nor drops any. -/
theorem stableSort_perm (xs : List α) : (stableSort p xs).Perm xs := by
  have h := foldl_insertDown_perm p xs []
  rw [List.append_nil] at h
  exact (List.reverse_perm _).trans h

end Precedes

section Correspondence

variable {p : α → α → Bool} {q : β → β → Bool} {R : α → β → Prop}
  (hpq : ∀ a a' b b', R a a' → R b b' → p a b = q a' b')

include hpq

/-- Insertions that compare alike put elements in the same places. -/
theorem insertDown_rel {x : α} {x' : β} (hx : R x x') {ys : List α} {ys' : List β}
    (hys : List.Forall₂ R ys ys') : List.Forall₂ R (insertDown p x ys) (insertDown q x' ys') := by
  induction hys with
  | nil => exact .cons hx .nil
  | cons hy hys ih =>
    rw [insertDown, insertDown, hpq _ _ _ _ hx hy]
    split
    · exact .cons hy ih
    · exact .cons hx (.cons hy hys)

/-- So do insertions one after the other. -/
theorem foldl_insertDown_rel {xs : List α} {xs' : List β} (hxs : List.Forall₂ R xs xs')
    {acc : List α} {acc' : List β} (hacc : List.Forall₂ R acc acc') :
    List.Forall₂ R (xs.foldl (fun sorted x => insertDown p x sorted) acc)
      (xs'.foldl (fun sorted x => insertDown q x sorted) acc') := by
  induction hxs generalizing acc acc' with
  | nil => exact hacc
  | cons hx _ ih => exact ih (insertDown_rel hpq hx hacc)

/-- Lists that correspond are sorted into lists that correspond, if corresponding elements compare
alike. -/
theorem stableSort_rel {xs : List α} {xs' : List β} (hxs : List.Forall₂ R xs xs') :
    List.Forall₂ R (stableSort p xs) (stableSort q xs') :=
  List.forall₂_reverse_iff.2 (foldl_insertDown_rel hpq hxs .nil)

end Correspondence

/-- Sorting commutes with a map that keeps the comparison of the elements at hand. -/
theorem stableSort_map {p : α → α → Bool} {q : β → β → Bool} (f : α → β) {xs : List α}
    (h : ∀ x ∈ xs, ∀ y ∈ xs, q (f x) (f y) = p x y) :
    stableSort q (xs.map f) = (stableSort p xs).map f := by
  have hxs : List.Forall₂ (fun a b => a ∈ xs ∧ f a = b) xs (xs.map f) := by
    rw [List.forall₂_map_right_iff, List.forall₂_same]
    exact fun a ha => ⟨ha, rfl⟩
  have hsort : List.Forall₂ (fun a b => a ∈ xs ∧ f a = b) (stableSort p xs)
      (stableSort q (xs.map f)) := by
    refine stableSort_rel ?_ hxs
    rintro a _ b _ ⟨ha, rfl⟩ ⟨hb, rfl⟩
    exact (h a ha b hb).symm
  have hmap : List.Forall₂ (· = ·) ((stableSort p xs).map f) (stableSort q (xs.map f)) := by
    rw [List.forall₂_map_left_iff]
    exact hsort.imp fun a b hab => hab.2
  rw [List.forall₂_eq_eq_eq] at hmap
  exact hmap.symm

/-! ### By a comparison -/

/-- Sort by a comparison, the least first. -/
def sortBy (cmp : α → α → Ordering) (xs : List α) : List α :=
  stableSort (fun a b => cmp a b == .lt) xs

/-- `ys` is `xs` in order, with level elements as they stood. -/
structure IsStableSort (cmp : α → α → Ordering) (xs ys : List α) : Prop where
  sorted : ys.Pairwise fun a b => (cmp a b).isLE
  level : ∀ a, (ys.filter fun b => cmp a b == .eq) = xs.filter fun b => cmp a b == .eq

section Ordered

open Std

variable {cmp : α → α → Ordering} [TransCmp cmp]

/-- A stable sort has the same elements. -/
theorem IsStableSort.mem_iff {xs ys : List α} (h : IsStableSort cmp xs ys) {a : α} :
    a ∈ ys ↔ a ∈ xs := by
  have haa : (cmp a a == .eq) = true := by simp [ReflCmp.compare_self]
  constructor
  · intro ha
    have ha' : a ∈ ys.filter fun b => cmp a b == .eq := List.mem_filter.2 ⟨ha, haa⟩
    rw [h.level a] at ha'
    exact (List.mem_filter.1 ha').1
  · intro ha
    have ha' : a ∈ xs.filter fun b => cmp a b == .eq := List.mem_filter.2 ⟨ha, haa⟩
    rw [← h.level a] at ha'
    exact (List.mem_filter.1 ha').1

/-- In two stable sorts of one list the first elements agree: each is level with the other, and of
the elements level with it both have the same one first. -/
theorem IsStableSort.head_eq {xs ys zs : List α} {y z : α} (hy : IsStableSort cmp xs (y :: ys))
    (hz : IsStableSort cmp xs (z :: zs)) : y = z := by
  have hyz : (cmp y z).isLE := by
    rcases List.mem_cons.1 (hy.mem_iff.2 (hz.mem_iff.1 List.mem_cons_self)) with rfl | hmem
    · exact ReflCmp.isLE_rfl
    · exact (List.pairwise_cons.1 hy.sorted).1 z hmem
  have hzy : (cmp z y).isLE := by
    rcases List.mem_cons.1 (hz.mem_iff.2 (hy.mem_iff.1 List.mem_cons_self)) with rfl | hmem
    · exact ReflCmp.isLE_rfl
    · exact (List.pairwise_cons.1 hz.sorted).1 y hmem
  have heq : cmp y z = .eq := OrientedCmp.isLE_antisymm hyz hzy
  have hlevel := (hy.level y).trans (hz.level y).symm
  rw [List.filter_cons_of_pos (by simp [ReflCmp.compare_self]),
    List.filter_cons_of_pos (by simp [heq])] at hlevel
  exact (List.cons.inj hlevel).1

/-- A list has one stable sort. By induction on the first: the heads are the same, as each is the
first among the least elements of the list, and the tails are stable sorts of the same list. -/
theorem IsStableSort.unique {xs ys zs : List α} (hy : IsStableSort cmp xs ys)
    (hz : IsStableSort cmp xs zs) : ys = zs := by
  induction ys generalizing xs zs with
  | nil =>
    cases zs with
    | nil => rfl
    | cons z zs => exact absurd (hy.mem_iff.2 (hz.mem_iff.1 List.mem_cons_self)) List.not_mem_nil
  | cons y ys ih =>
    cases zs with
    | nil => exact absurd (hz.mem_iff.2 (hy.mem_iff.1 List.mem_cons_self)) List.not_mem_nil
    | cons z zs =>
      obtain rfl := hy.head_eq hz
      -- both tails are stable sorts of the first of them
      have hys : IsStableSort cmp ys ys := ⟨(List.pairwise_cons.1 hy.sorted).2, fun _ => rfl⟩
      have hzs : IsStableSort cmp ys zs := by
        refine ⟨(List.pairwise_cons.1 hz.sorted).2, fun a => ?_⟩
        have hlevel := (hz.level a).trans (hy.level a).symm
        rw [List.filter_cons, List.filter_cons] at hlevel
        split at hlevel
        · exact (List.cons.inj hlevel).2
        · exact hlevel
      rw [ih hys hzs]

/-! ### Insertion sorts stably -/

/-- What an insertion passes over comes after the new element, so it keeps its place among the
elements level with it: in front, in a list from the greatest down. -/
theorem insertDown_filter_level (a x : α) (ys : List α) :
    ((insertDown (fun a b => cmp a b == .lt) x ys).filter fun b => cmp a b == .eq) =
      (x :: ys).filter fun b => cmp a b == .eq := by
  induction ys with
  | nil => rfl
  | cons y ys ih =>
    unfold insertDown
    split
    next hxy =>
      rw [List.filter_cons, ih, List.filter_cons, List.filter_cons, List.filter_cons]
      by_cases hax : cmp a x = .eq
      · have hay : cmp a y = .lt := TransCmp.lt_of_eq_of_lt hax (by simpa using hxy)
        simp [hay]
      · simp [hax]
    next => rfl

/-- Insertion into a descending list keeps it descending. The new element goes behind those that are
greater, and everything behind it is at most as great. -/
theorem insertDown_pairwise {x : α} {ys : List α} (h : ys.Pairwise fun a b => (cmp b a).isLE) :
    (insertDown (fun a b => cmp a b == .lt) x ys).Pairwise fun a b => (cmp b a).isLE := by
  induction ys with
  | nil => exact List.pairwise_singleton _ _
  | cons y ys ih =>
    obtain ⟨hy, hys⟩ := List.pairwise_cons.1 h
    unfold insertDown
    split
    next hxy =>
      refine List.pairwise_cons.2 ⟨fun z hz => ?_, ih hys⟩
      rw [(insertDown_perm _ x ys).mem_iff] at hz
      rcases List.mem_cons.1 hz with rfl | hz
      · exact Ordering.isLE_of_eq_lt (by simpa using hxy)
      · exact hy z hz
    next hxy =>
      have hyx : (cmp y x).isLE := by
        have hswap : cmp y x = (cmp x y).swap := OrientedCmp.eq_swap
        rw [hswap]
        cases hc : cmp x y <;> simp_all
      refine List.pairwise_cons.2 ⟨fun z hz => ?_, h⟩
      rcases List.mem_cons.1 hz with rfl | hz
      · exact hyx
      · exact TransCmp.isLE_trans (hy z hz) hyx

/-- Of the elements on one level, those inserted later come first. -/
theorem foldl_insertDown_filter_level (a : α) (xs acc : List α) :
    ((xs.foldl (fun sorted x => insertDown (fun a b => cmp a b == .lt) x sorted) acc).filter
      fun b => cmp a b == .eq) = (xs.reverse ++ acc).filter fun b => cmp a b == .eq := by
  induction xs generalizing acc with
  | nil => rfl
  | cons x xs ih =>
    rw [List.foldl_cons, ih, List.filter_append, insertDown_filter_level, ← List.filter_append,
      List.reverse_cons, List.append_assoc]
    rfl

/-- A list that elements are inserted into one by one stays descending. -/
theorem foldl_insertDown_pairwise (xs : List α) {acc : List α}
    (h : acc.Pairwise fun a b => (cmp b a).isLE) :
    (xs.foldl (fun sorted x => insertDown (fun a b => cmp a b == .lt) x sorted) acc).Pairwise
      fun a b => (cmp b a).isLE := by
  induction xs generalizing acc with
  | nil => exact h
  | cons x xs ih => exact ih (insertDown_pairwise h)

/-- The insertion sort is a stable sort, if the comparison is transitive. -/
theorem sortBy_isStableSort (xs : List α) : IsStableSort cmp xs (sortBy cmp xs) := by
  refine ⟨List.pairwise_reverse.2 (foldl_insertDown_pairwise xs .nil), fun a => ?_⟩
  rw [sortBy, stableSort, List.filter_reverse, foldl_insertDown_filter_level, List.append_nil,
    List.filter_reverse, List.reverse_reverse]

/-- A stable sort in hand is the result of sorting. -/
theorem IsStableSort.sortBy_eq {xs ys : List α} (h : IsStableSort cmp xs ys) :
    sortBy cmp xs = ys :=
  (sortBy_isStableSort xs).unique h

end Ordered

/-! ### Laws of sorting

A comparison need only be an order on the elements of the list at hand. -/

/-- On the listed elements the comparison is that of some total preorder. -/
def OrderOn (cmp : α → α → Ordering) (xs : List α) : Prop :=
  ∃ order : α → α → Ordering, Std.TransCmp order ∧ ∀ a ∈ xs, ∀ b ∈ xs, cmp a b = order a b

/-- An order on some elements is one on fewer. -/
theorem OrderOn.mono {cmp : α → α → Ordering} {xs ys : List α} (h : OrderOn cmp xs)
    (hys : ∀ a ∈ ys, a ∈ xs) : OrderOn cmp ys := by
  obtain ⟨order, htrans, heq⟩ := h
  exact ⟨order, htrans, fun a ha b hb => heq a (hys a ha) b (hys b hb)⟩

/-- Ties of one order broken by another make an order. -/
theorem OrderOn.lex {cmp cmp' : α → α → Ordering} {xs : List α} (h : OrderOn cmp xs)
    (h' : OrderOn cmp' xs) : OrderOn (compareLex cmp cmp') xs := by
  obtain ⟨order, _, heq⟩ := h
  obtain ⟨order', _, heq'⟩ := h'
  refine ⟨compareLex order order', inferInstance, fun a ha b hb => ?_⟩
  rw [compareLex, heq a ha b hb, heq' a ha b hb, compareLex]

section Laws

variable {cmp cmp' : α → α → Ordering} {xs : List α}

/-- Sorting keeps the elements. -/
theorem mem_sortBy {x : α} : x ∈ sortBy cmp xs ↔ x ∈ xs := (stableSort_perm _ xs).mem_iff

/-- Sorting commutes with a map that keeps the comparison of the elements at hand. -/
theorem sortBy_map {order : β → β → Ordering} (f : α → β)
    (h : ∀ x ∈ xs, ∀ y ∈ xs, order (f x) (f y) = cmp x y) :
    sortBy order (xs.map f) = (sortBy cmp xs).map f :=
  stableSort_map f fun x hx y hy => by rw [h x hx y hy]

/-- Lists whose elements correspond, and compare alike, are sorted alike. -/
theorem sortBy_rel {order : β → β → Ordering} {R : α → β → Prop} {ys : List β}
    (h : List.Forall₂ R xs ys)
    (hcmp : ∀ a a' b b', R a a' → R b b' → cmp a b = order a' b') :
    List.Forall₂ R (sortBy cmp xs) (sortBy order ys) :=
  stableSort_rel (fun a a' b b' ha hb => by rw [hcmp a a' b b' ha hb]) h

/-- Only comparisons between elements of the list matter. -/
theorem sortBy_congr (h : ∀ x ∈ xs, ∀ y ∈ xs, cmp x y = cmp' x y) :
    sortBy cmp xs = sortBy cmp' xs := by
  have hid := sortBy_map id h
  rwa [List.map_id, List.map_id] at hid

/-- The elements are in order where the comparison is one on them. -/
theorem sortBy_pairwise (h : OrderOn cmp xs) :
    (sortBy cmp xs).Pairwise fun a b => (cmp a b).isLE := by
  obtain ⟨order, _, heq⟩ := h
  rw [sortBy_congr heq]
  refine (sortBy_isStableSort xs).sorted.imp_of_mem fun ha hb hab => ?_
  rw [heq _ (mem_sortBy.1 ha) _ (mem_sortBy.1 hb)]
  exact hab

/-- What is in order stays as it is. -/
theorem sortBy_of_pairwise (h : OrderOn cmp xs) (hxs : xs.Pairwise fun a b => (cmp a b).isLE) :
    sortBy cmp xs = xs := by
  obtain ⟨order, _, heq⟩ := h
  rw [sortBy_congr heq]
  refine IsStableSort.sortBy_eq ⟨hxs.imp_of_mem fun ha hb hab => ?_, fun _ => rfl⟩
  rw [← heq _ ha _ hb]
  exact hab

/-- Selecting elements before or after sorting is the same. -/
theorem sortBy_filter (h : OrderOn cmp xs) (p : α → Bool) :
    sortBy cmp (xs.filter p) = (sortBy cmp xs).filter p := by
  obtain ⟨order, _, heq⟩ := h
  have hmem : ∀ a ∈ xs.filter p, a ∈ xs := fun a ha => (List.mem_filter.1 ha).1
  rw [sortBy_congr heq, sortBy_congr fun a ha b hb => heq a (hmem a ha) b (hmem b hb)]
  have hsort : IsStableSort order xs (sortBy order xs) := sortBy_isStableSort xs
  refine IsStableSort.sortBy_eq ⟨hsort.sorted.filter p, fun a => ?_⟩
  rw [List.filter_filter, List.filter_filter, List.filter_congr fun b _ => Bool.and_comm _ _,
    ← List.filter_filter, hsort.level a, List.filter_filter,
    List.filter_congr fun b _ => Bool.and_comm _ _]

/-- Sorting by one comparison and then by another is sorting once, by the second with ties broken by
the first. -/
theorem sortBy_sortBy (h : OrderOn cmp xs) (h' : OrderOn cmp' xs) :
    sortBy cmp (sortBy cmp' xs) = sortBy (compareLex cmp cmp') xs := by
  have hlex := h.lex h'
  obtain ⟨order, _, heq⟩ := h
  rw [sortBy_congr fun a ha b hb => heq a (mem_sortBy.1 ha) b (mem_sortBy.1 hb)]
  refine IsStableSort.sortBy_eq ⟨?_, fun a => ?_⟩
  · refine (sortBy_pairwise hlex).imp_of_mem fun ha hb hab => ?_
    rw [← heq _ (mem_sortBy.1 ha) _ (mem_sortBy.1 hb)]
    exact Ordering.isLE_left_of_isLE_then hab
  · -- among the elements level with `a` the first comparison is silent
    rw [← sortBy_filter hlex, ← sortBy_filter h']
    refine sortBy_congr fun x hx y hy => ?_
    obtain ⟨hx, hax⟩ := List.mem_filter.1 hx
    obtain ⟨hy, hay⟩ := List.mem_filter.1 hy
    have hxy : order x y = .eq :=
      Std.TransCmp.eq_trans (Std.OrientedCmp.eq_symm (eq_of_beq hax)) (eq_of_beq hay)
    rw [compareLex, heq x hx y hy, hxy]
    rfl

end Laws

end QueryTree.Relation
