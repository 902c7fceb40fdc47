import Mathlib
import QueryTree.Proofs.Attempt
import QueryTree.Proofs.Equality

/-!
# Equality of values, doubles included

A NaN is not equal to itself, so equality of values is not reflexive. It is symmetric and transitive
all the same, through records, lists and row sets, and so is equality of rows. Lists are equal when
their elements are, one by one (`beqList_iff`, `beqFields_iff`, `beqRows_iff`), so each of the two
laws is an induction over the first value.
-/

namespace QueryTree

open Attempt

/-! ### Lists that correspond -/

section Correspondence

variable {α β γ : Type} {R : α → β → Prop} {l : List α} {l' : List β}

/-- A relation between lists is turned round if it is so at each element of the first. -/
theorem forall₂_swap_of_mem {S : β → α → Prop} (h : List.Forall₂ R l l')
    (hRS : ∀ a ∈ l, ∀ b, R a b → S b a) : List.Forall₂ S l' l :=
  ((forall₂_and_mem h).imp fun a b hab => hRS a hab.2.1 b hab.1).flip

/-- Relations between lists compose if they do at each element of the first. -/
theorem forall₂_trans_of_mem {S : β → γ → Prop} {T : α → γ → Prop} {l'' : List γ}
    (h : List.Forall₂ R l l') (h' : List.Forall₂ S l' l'')
    (hRST : ∀ a ∈ l, ∀ b c, R a b → S b c → T a c) : List.Forall₂ T l l'' := by
  induction h generalizing l'' with
  | nil =>
    cases h'
    exact .nil
  | cons hab _ ih =>
    cases h' with
    | cons hbc hrest =>
      obtain ⟨ha, hl⟩ := List.forall_mem_cons.1 hRST
      exact .cons (ha _ _ hab hbc) (ih hrest hl)

end Correspondence

namespace Value

/-- Lists of values are equal place by place. -/
theorem beqList_iff {vs ws : List Value} :
    beqList vs ws = true ↔ List.Forall₂ (fun v w => beq v w = true) vs ws := by
  induction vs generalizing ws with
  | nil => cases ws <;> simp [beqList]
  | cons v vs ih => cases ws <;> simp [beqList, ih]

/-- Records are equal field by field, names included. -/
theorem beqFields_iff {fields fields' : List (String × Value)} :
    beqFields fields fields' = true ↔
      List.Forall₂ (fun f g => f.1 = g.1 ∧ beq f.2 g.2 = true) fields fields' := by
  induction fields generalizing fields' with
  | nil => cases fields' <;> simp [beqFields]
  | cons f fields ih => cases fields' <;> simp [beqFields, ih]

/-- Tables are equal row by row. -/
theorem beqRows_iff {rows rows' : List Row} :
    beqRows rows rows' = true ↔ List.Forall₂ (fun r s => beqList r s = true) rows rows' := by
  induction rows generalizing rows' with
  | nil => cases rows' <;> simp [beqRows]
  | cons row rows ih => cases rows' <;> simp [beqRows, ih]

/-- Equality of lists is symmetric if it is so at each element. -/
theorem beqList_symm_of_mem {vs ws : List Value}
    (ih : ∀ v ∈ vs, ∀ w, beq v w = true → beq w v = true) (h : beqList vs ws = true) :
    beqList ws vs = true :=
  beqList_iff.2 (forall₂_swap_of_mem (beqList_iff.1 h) ih)

/-- Equality of lists is transitive if it is so at each element. -/
theorem beqList_trans_of_mem {vs ws us : List Value}
    (ih : ∀ v ∈ vs, ∀ w u, beq v w = true → beq w u = true → beq v u = true)
    (h : beqList vs ws = true) (h' : beqList ws us = true) : beqList vs us = true :=
  beqList_iff.2 (forall₂_trans_of_mem (beqList_iff.1 h) (beqList_iff.1 h') ih)

/-- Equality of values is symmetric, doubles included. -/
theorem beq_symm (v w : Value) (h : beq v w = true) : beq w v = true := by
  induction v using valueInduction generalizing w with
  | record fields ih =>
    cases w with
    | record fields' =>
      refine beqFields_iff.2 (forall₂_swap_of_mem (beqFields_iff.1 h) fun f hf g hfg => ?_)
      exact ⟨hfg.1.symm, ih f hf g.2 hfg.2⟩
    | _ => cases h
  | list items ih =>
    cases w with
    | list items' => exact beqList_symm_of_mem ih h
    | _ => cases h
  | rows columns cells ih =>
    cases w with
    | rows set =>
      obtain ⟨hcolumns, hcells⟩ := Bool.and_eq_true_iff.1 h
      refine Bool.and_eq_true_iff.2 ⟨PartialEquivBEq.symm hcolumns, beqRows_iff.2 ?_⟩
      exact forall₂_swap_of_mem (beqRows_iff.1 hcells) fun row hrow _ => beqList_symm_of_mem (ih row hrow)
    | _ => cases h
  | null => cases w <;> first | rfl | cases h
  | _ x => cases w <;> first | cases h | exact PartialEquivBEq.symm h

/-- Equality of values is transitive, doubles included. By induction on the first value; records,
lists and rows are compared part by part. -/
theorem beq_trans (v w u : Value) (h : beq v w = true) (h' : beq w u = true) : beq v u = true := by
  induction v using valueInduction generalizing w u with
  | record fields ih =>
    cases w with
    | record fields' =>
      cases u with
      | record fields'' =>
        refine beqFields_iff.2 (forall₂_trans_of_mem (beqFields_iff.1 h) (beqFields_iff.1 h')
          fun f hf g k hfg hgk => ?_)
        exact ⟨hfg.1.trans hgk.1, ih f hf g.2 k.2 hfg.2 hgk.2⟩
      | _ => cases h'
    | _ => cases h
  | list items ih =>
    cases w with
    | list items' =>
      cases u with
      | list items'' => exact beqList_trans_of_mem ih h h'
      | _ => cases h'
    | _ => cases h
  | rows columns cells ih =>
    cases w with
    | rows set =>
      cases u with
      | rows set' =>
        obtain ⟨hcolumns, hcells⟩ := Bool.and_eq_true_iff.1 h
        obtain ⟨hcolumns', hcells'⟩ := Bool.and_eq_true_iff.1 h'
        refine Bool.and_eq_true_iff.2 ⟨PartialEquivBEq.trans hcolumns hcolumns', beqRows_iff.2 ?_⟩
        exact forall₂_trans_of_mem (beqRows_iff.1 hcells) (beqRows_iff.1 hcells')
          fun row hrow _ _ => beqList_trans_of_mem (ih row hrow)
      | _ => cases h'
    | _ => cases h
  | null => cases w <;> first | exact h' | cases h
  | _ x =>
    cases w <;> first
      | cases h
      | (cases u <;> first | cases h' | exact PartialEquivBEq.trans h h')

instance : PartialEquivBEq Value where
  symm := beq_symm _ _
  trans := beq_trans _ _ _

end Value

/-- Equality of lists is that of their elements. -/
theorem list_beq_iff {α : Type} [BEq α] {l l' : List α} :
    (l == l') = true ↔ List.Forall₂ (fun a b => (a == b) = true) l l' := by
  induction l generalizing l' with
  | nil => cases l' <;> simp
  | cons a l ih => cases l' <;> simp [ih]

instance partialEquivBEqList {α : Type} [BEq α] [PartialEquivBEq α] : PartialEquivBEq (List α) where
  symm h := list_beq_iff.2
    (forall₂_swap_of_mem (list_beq_iff.1 h) fun _ _ _ => PartialEquivBEq.symm)
  trans h h' := list_beq_iff.2
    (forall₂_trans_of_mem (list_beq_iff.1 h) (list_beq_iff.1 h') fun _ _ _ _ => PartialEquivBEq.trans)

end QueryTree
