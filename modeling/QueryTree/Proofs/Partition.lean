import Mathlib.Data.List.FinRange
import QueryTree.Proofs.EqualValues
import QueryTree.Proofs.Grouping

/-!
# Grouping is a partition

Grouping rows by expressions divides the rows into groups. Since rows may be repeated, what is
divided are their positions. A group is the rows at a block of positions, and the blocks have each
position once, with the positions of a block and the first positions of the blocks in the order of
the input (`Arranges`). Two positions are in one block just in case the rows there have equal keys
(`groupRows_divides`).

The loop looks for a block by the key of its first row only, so its invariant is about first
positions: the block of a position holds what has the key of the position, and no two blocks have
equal keys (`LedBlocks`). Equality of keys is symmetric and transitive, which is enough. It need not
be reflexive: a row whose key has a NaN in it is alone in its group.
-/

namespace QueryTree

open Attempt

namespace Relation

section Blocks

variable {ι : Type} {same : ι → ι → Bool} {positions : List ι} {blocks before after : List (List ι)}
  {b : List ι} {first i : ι}

/-- Blocks that have each of the positions once, and keep their order. -/
structure Arranges (positions : List ι) (blocks : List (List ι)) : Prop where
  ne_nil : ∀ b ∈ blocks, b ≠ []
  sublist : ∀ b ∈ blocks, b.Sublist positions
  perm : blocks.flatten.Perm positions
  firsts : (blocks.filterMap List.head?).Sublist positions

/-- Blocks of positions that are the same in some respect. -/
structure Divides (same : ι → ι → Bool) (positions : List ι) (blocks : List (List ι)) : Prop
    extends Arranges positions blocks where
  same_iff : ∀ i ∈ positions, ∀ j ∈ positions, i ≠ j →
    ((∃ b ∈ blocks, i ∈ b ∧ j ∈ b) ↔ same i j = true)

/-- Blocks of positions that are the same as the first one of the block. -/
structure LedBlocks (same : ι → ι → Bool) (positions : List ι) (blocks : List (List ι)) : Prop
    extends Arranges positions blocks where
  mem_iff : ∀ b ∈ blocks, ∀ first ∈ b.head?, ∀ j ∈ positions, j ∈ b ↔ j = first ∨ same first j = true
  apart : (blocks.filterMap List.head?).Pairwise fun i j => same i j = false

/-! ### One more position -/

/-- The block that a position is added to keeps its first one. -/
theorem head?_add_to (hb : b ≠ []) (i : ι) :
    (before ++ (b ++ [i]) :: after).filterMap List.head? =
      (before ++ b :: after).filterMap List.head? := by
  obtain ⟨first, rest, rfl⟩ := List.exists_cons_of_ne_nil hb
  simp only [List.filterMap_append, List.filterMap_cons, List.cons_append, List.head?_cons]

/-- One more position at the end of a block keeps the arrangement. -/
theorem Arranges.add_to (h : Arranges positions (before ++ b :: after)) (i : ι) :
    Arranges (positions ++ [i]) (before ++ (b ++ [i]) :: after) := by
  obtain ⟨hne, hsub, hperm, hfirsts⟩ := h
  rw [List.forall_mem_append, List.forall_mem_cons] at hne hsub
  have hwider : ∀ {c : List ι}, c.Sublist positions → c.Sublist (positions ++ [i]) :=
    fun hc => hc.trans (List.sublist_append_left _ _)
  refine ⟨?_, ?_, ?_, ?_⟩
  · rw [List.forall_mem_append, List.forall_mem_cons]
    exact ⟨hne.1, List.append_ne_nil_of_left_ne_nil hne.2.1 _, hne.2.2⟩
  · rw [List.forall_mem_append, List.forall_mem_cons]
    exact ⟨fun c hc => hwider (hsub.1 c hc), hsub.2.1.append (List.Sublist.refl _),
      fun c hc => hwider (hsub.2.2 c hc)⟩
  · have hmove : (before ++ (b ++ [i]) :: after).flatten.Perm
        ((before ++ b :: after).flatten ++ [i]) := by
      simp only [List.flatten_append, List.flatten_cons, List.append_assoc]
      exact (List.perm_append_comm.append_left b).append_left _
    exact hmove.trans (hperm.append_right [i])
  · rw [head?_add_to hne.2.1]
    exact hwider hfirsts

/-- So does one in a block of its own. -/
theorem Arranges.add_block (h : Arranges positions blocks) (i : ι) :
    Arranges (positions ++ [i]) (blocks ++ [[i]]) := by
  obtain ⟨hne, hsub, hperm, hfirsts⟩ := h
  refine ⟨?_, ?_, ?_, ?_⟩
  · rw [List.forall_mem_append, List.forall_mem_singleton]
    exact ⟨hne, List.cons_ne_nil _ _⟩
  · rw [List.forall_mem_append, List.forall_mem_singleton]
    exact ⟨fun c hc => (hsub c hc).trans (List.sublist_append_left _ _),
      List.sublist_append_right _ _⟩
  · rw [List.flatten_append, List.flatten_singleton]
    exact hperm.append_right [i]
  · rw [List.filterMap_append]
    exact hfirsts.append (List.Sublist.refl _)

/-- A block stays as it is when the new position differs from its first one. -/
theorem LedBlocks.mem_iff_of_other (h : LedBlocks same positions blocks) (hi : i ∉ positions)
    (hb : b ∈ blocks) (hfirst : first ∈ b.head?) (hother : same first i = false) :
    ∀ j ∈ positions ++ [i], j ∈ b ↔ j = first ∨ same first j = true := by
  intro j hj
  rcases List.mem_append.1 hj with hj | hj
  · exact h.mem_iff b hb first hfirst j hj
  · obtain rfl := List.mem_singleton.1 hj
    have hnot : j ∉ b := fun hmem => hi ((h.sublist b hb).subset hmem)
    have hne : j ≠ first := fun heq => hnot (heq ▸ List.mem_of_mem_head? hfirst)
    simp [hnot, hne, hother]

section Same

variable (hsymm : ∀ {i j}, same i j = true → same j i = true)
  (htrans : ∀ {i j k}, same i j = true → same j k = true → same i k = true)

include hsymm htrans

/-- A position joins the block whose first one it is the same as. It is not the same as the first
one of another block, since these two would be the same. -/
theorem LedBlocks.add_to (h : LedBlocks same positions (before ++ b :: after)) (hi : i ∉ positions)
    (hfirst : b.head? = some first) (hsame : same first i = true)
    (hbefore : ∀ c ∈ before, ∀ first' ∈ c.head?, same first' i = false) :
    LedBlocks same (positions ++ [i]) (before ++ (b ++ [i]) :: after) := by
  have hb : b ≠ [] := h.ne_nil b (by simp)
  -- the loop does not look at the blocks after `b`, so that they differ has to come from `apart`
  have hafter : ∀ c ∈ after, ∀ first' ∈ c.head?, same first' i = false := by
    intro c hc first' hfirst'
    have hapart := h.apart
    rw [List.filterMap_append, List.filterMap_cons_some hfirst, List.pairwise_append,
      List.pairwise_cons] at hapart
    have hfalse := hapart.2.1.1 first' (List.mem_filterMap.2 ⟨c, hc, hfirst'⟩)
    exact Bool.eq_false_iff.2 fun htrue =>
      Bool.eq_false_iff.1 hfalse (htrans hsame (hsymm htrue))
  refine ⟨h.toArranges.add_to i, ?_, ?_⟩
  · rw [List.forall_mem_append, List.forall_mem_cons]
    refine ⟨fun c hc first' hfirst' => ?_, fun first' hfirst' j hj => ?_, fun c hc first' hfirst' => ?_⟩
    · exact h.mem_iff_of_other hi (List.mem_append_left _ hc) hfirst' (hbefore c hc first' hfirst')
    · obtain rfl : first = first' := by
        rw [List.head?_append_of_ne_nil _ hb, hfirst] at hfirst'
        exact Option.some.inj hfirst'
      rcases List.mem_append.1 hj with hj | hj
      · have hne : j ≠ i := fun heq => hi (heq ▸ hj)
        rw [List.mem_append, List.mem_singleton, or_iff_left hne]
        exact h.mem_iff b (by simp) first hfirst j hj
      · obtain rfl := List.mem_singleton.1 hj
        simp [hsame]
    · exact h.mem_iff_of_other hi (List.mem_append_right _ (List.mem_cons_of_mem _ hc)) hfirst'
        (hafter c hc first' hfirst')
  · rw [head?_add_to hb]
    exact h.apart

/-- A position that differs from all first ones opens a block. It differs from all others too, since
each of them is the same as the first one of its block. -/
theorem LedBlocks.add_block (h : LedBlocks same positions blocks) (hi : i ∉ positions)
    (hother : ∀ b ∈ blocks, ∀ first ∈ b.head?, same first i = false) :
    LedBlocks same (positions ++ [i]) (blocks ++ [[i]]) := by
  have halone : ∀ j ∈ positions, same i j = false := by
    intro j hj
    obtain ⟨b, hb, hjb⟩ := List.mem_flatten.1 (h.perm.mem_iff.2 hj)
    obtain ⟨first, hfirst⟩ := Option.isSome_iff_exists.1 (List.isSome_head?.2 (h.ne_nil b hb))
    refine Bool.eq_false_iff.2 fun hsame => Bool.eq_false_iff.1 (hother b hb first hfirst) ?_
    rcases (h.mem_iff b hb first hfirst j hj).1 hjb with rfl | hj'
    · exact hsymm hsame
    · exact htrans hj' (hsymm hsame)
  refine ⟨h.toArranges.add_block i, ?_, ?_⟩
  · rw [List.forall_mem_append, List.forall_mem_singleton]
    refine ⟨fun b hb first hfirst => h.mem_iff_of_other hi hb hfirst (hother b hb first hfirst), ?_⟩
    intro first hfirst j hj
    obtain rfl : i = first := Option.some.inj hfirst
    rcases List.mem_append.1 hj with hj | hj
    · have hne : j ≠ i := fun heq => hi (heq ▸ hj)
      simp [hne, halone j hj]
    · obtain rfl := List.mem_singleton.1 hj
      simp
  · rw [List.filterMap_append]
    refine List.pairwise_append.2 ⟨h.apart, List.pairwise_singleton _ _, fun first hfirst j hj => ?_⟩
    obtain ⟨b, hb, hfirst⟩ := List.mem_filterMap.1 hfirst
    obtain rfl := List.mem_singleton.1 hj
    exact hother b hb first hfirst

/-- Positions are in one block just in case they are the same. -/
theorem LedBlocks.divides (h : LedBlocks same positions blocks) : Divides same positions blocks := by
  refine ⟨h.toArranges, fun i hi j hj hne => ⟨?_, fun hsame => ?_⟩⟩
  · rintro ⟨b, hb, hib, hjb⟩
    obtain ⟨first, hfirst⟩ := Option.isSome_iff_exists.1 (List.isSome_head?.2 (h.ne_nil b hb))
    have hi' := (h.mem_iff b hb first hfirst i hi).1 hib
    have hj' := (h.mem_iff b hb first hfirst j hj).1 hjb
    rcases hi' with rfl | hi'
    · exact hj'.resolve_left hne.symm
    · rcases hj' with rfl | hj'
      · exact hsymm hi'
      · exact htrans (hsymm hi') hj'
  · obtain ⟨b, hb, hib⟩ := List.mem_flatten.1 (h.perm.mem_iff.2 hi)
    obtain ⟨first, hfirst⟩ := Option.isSome_iff_exists.1 (List.isSome_head?.2 (h.ne_nil b hb))
    refine ⟨b, hb, hib, (h.mem_iff b hb first hfirst j hj).2 (.inr ?_)⟩
    rcases (h.mem_iff b hb first hfirst i hi).1 hib with rfl | hi'
    · exact hsame
    · exact htrans hi' hsame

end Same

end Blocks

/-! ### The loop -/

/-- Adding a row to groups looks for the first group with an equal key. -/
theorem addToGroup_cases (k : List Value) (row : Row) (groups : List (List Value × List Row)) :
    (∃ before k' members after, groups = before ++ (k', members) :: after ∧
        (∀ g ∈ before, (g.1 == k) = false) ∧ (k' == k) = true ∧
        addToGroup k row groups = before ++ (k', members ++ [row]) :: after) ∨
      ((∀ g ∈ groups, (g.1 == k) = false) ∧ addToGroup k row groups = groups ++ [(k, [row])]) := by
  induction groups with
  | nil => exact .inr ⟨fun g hg => absurd hg List.not_mem_nil, rfl⟩
  | cons g groups ih =>
    obtain ⟨k', members⟩ := g
    rw [addToGroup]
    cases hbeq : k' == k with
    | true => exact .inl ⟨[], k', members, groups, rfl, by simp, hbeq, rfl⟩
    | false =>
      rcases ih with ⟨before, k'', members', after, rfl, hbefore, hsame, hadd⟩ | ⟨hnew, hadd⟩
      · refine .inl ⟨(k', members) :: before, k'', members', after, rfl, ?_, hsame, ?_⟩
        · exact List.forall_mem_cons.2 ⟨hbeq, hbefore⟩
        · rw [hadd]
          rfl
      · refine .inr ⟨List.forall_mem_cons.2 ⟨hbeq, hnew⟩, ?_⟩
        rw [hadd]
        rfl

section Loop

variable {ι : Type} (key : ι → List Value) (row : ι → Row)

/-- The group of a block: the rows there, with the key of the first. -/
def groupOf (b : List ι) : List Value × List Row := (b.head?.elim [] key, b.map row)

variable {key} {positions rest : List ι} {blocks : List (List ι)}

/-- What adding a row does to the blocks behind the groups. If a group has the key of the row, the
position is added to the end of its block; else it opens a block of its own. -/
theorem LedBlocks.exists_addToGroup (h : LedBlocks (fun i j => key i == key j) positions blocks)
    {i : ι} (hi : i ∉ positions) :
    ∃ blocks', LedBlocks (fun i j => key i == key j) (positions ++ [i]) blocks' ∧
      addToGroup (key i) (row i) (blocks.map (groupOf key row)) = blocks'.map (groupOf key row) := by
  have hkey : ∀ {b : List ι} {first : ι}, first ∈ b.head? → (groupOf key row b).1 = key first := by
    intro b first hfirst
    rw [groupOf, Option.mem_def.1 hfirst]
    rfl
  rcases addToGroup_cases (key i) (row i) (blocks.map (groupOf key row)) with
    ⟨before, k, members, after, hgroups, hbefore, hsame, hadd⟩ | ⟨hnew, hadd⟩
  -- the group that was found is the one of a block `b`
  · obtain ⟨bs, bs', rfl, rfl, hbs'⟩ := List.map_eq_append_iff.1 hgroups
    obtain ⟨b, cs, rfl, hb, rfl⟩ := List.map_eq_cons_iff.1 hbs'
    have hne : b ≠ [] := h.ne_nil b (by simp)
    obtain ⟨first, hfirst⟩ := Option.isSome_iff_exists.1 (List.isSome_head?.2 hne)
    refine ⟨bs ++ (b ++ [i]) :: cs,
      h.add_to PartialEquivBEq.symm PartialEquivBEq.trans hi hfirst ?_ ?_, ?_⟩
    · rw [← hkey hfirst, hb]
      exact hsame
    · intro c hc first' hfirst'
      rw [← hkey hfirst']
      exact hbefore _ (List.mem_map_of_mem hc)
    · obtain ⟨rfl, rfl⟩ := Prod.mk.inj hb
      rw [hadd, List.map_append, List.map_cons, groupOf, List.head?_append_of_ne_nil _ hne,
        List.map_append]
      rfl
  · refine ⟨blocks ++ [[i]], h.add_block PartialEquivBEq.symm PartialEquivBEq.trans hi ?_, ?_⟩
    · intro b hb first hfirst
      rw [← hkey hfirst]
      exact hnew _ (List.mem_map_of_mem hb)
    · rw [hadd, List.map_append]
      rfl

/-- Blocks stay behind the groups when rows are added one after the other. -/
theorem LedBlocks.exists_foldl_addToGroup
    (h : LedBlocks (fun i j => key i == key j) positions blocks) (hnodup : (positions ++ rest).Nodup) :
    ∃ blocks', LedBlocks (fun i j => key i == key j) (positions ++ rest) blocks' ∧
      rest.foldl (fun groups i => addToGroup (key i) (row i) groups) (blocks.map (groupOf key row)) =
        blocks'.map (groupOf key row) := by
  induction rest generalizing positions blocks with
  | nil => exact ⟨blocks, by rwa [List.append_nil], rfl⟩
  | cons i rest ih =>
    have hi : i ∉ positions := fun hmem =>
      (List.nodup_append.1 hnodup).2.2 i hmem i List.mem_cons_self rfl
    obtain ⟨blocks', hblocks', hadd⟩ := h.exists_addToGroup row hi
    rw [List.append_cons] at hnodup ⊢
    rw [List.foldl_cons, hadd]
    exact ih hblocks' hnodup

end Loop

/-- Rows on which all of one or more grouping expressions have values are divided into groups by
these values. The groups are given by positions, so rows that occur several times are kept apart:
each position is in one group, and two different positions are in the same just in case their keys
are equal. -/
theorem groupRows_divides {r : Relation} {gs : List Expr} (hgs : gs ≠ []) {key : Row → List Value}
    (hkey : ∀ row ∈ r.rows, Expr.evaluateList (rowEnv r.columns row) gs = .ok (key row)) :
    ∃ blocks : List (List (Fin r.rows.length)),
      r.groupRows gs = .ok (blocks.map (List.map r.rows.get)) ∧
      Divides (fun i j => key (r.rows.get i) == key (r.rows.get j)) (List.finRange r.rows.length)
        blocks := by
  have hdefined : ∀ g ∈ gs, Defined r.columns g r.rows :=
    fun g hg row hrow => (evaluateList_eq_ok_iff.1 (hkey row hrow)).1 g hg
  have hkeys : ∀ i, key (r.rows.get i) = groupKey r.columns gs (r.rows.get i) :=
    fun i => (evaluateList_eq_ok_iff.1 (hkey _ (List.get_mem r.rows i))).2
  have hstart : LedBlocks (fun i j => key (r.rows.get i) == key (r.rows.get j)) [] [] :=
    ⟨⟨by simp, by simp, .nil, .slnil⟩, by simp, .nil⟩
  have hpositions : ([] ++ List.finRange r.rows.length).Nodup := List.nodup_finRange _
  obtain ⟨blocks, hblocks, hfold⟩ := hstart.exists_foldl_addToGroup r.rows.get hpositions
  refine ⟨blocks, (groupRows_eq_ok_iff hgs).2 ⟨hdefined, ?_⟩,
    hblocks.divides PartialEquivBEq.symm PartialEquivBEq.trans⟩
  calc blocks.map (List.map r.rows.get)
    _ = (blocks.map (groupOf (fun i => key (r.rows.get i)) r.rows.get)).map (·.2) := by
      rw [List.map_map]
      rfl
    _ = (grouped (groupKey r.columns gs) ((List.finRange r.rows.length).map r.rows.get)).map (·.2) := by
      rw [← hfold, grouped, List.foldl_map]
      simp only [hkeys, List.map_nil]
    _ = (grouped (groupKey r.columns gs) r.rows).map (·.2) := by
      rw [List.map_get_finRange]

/-- Who was seen at which door. A row is repeated, and two doors are unknown. -/
def sightings : Relation where
  columns := [("s", "name"), ("s", "door")]
  rows := [[.text "ann", .int 4], [.text "bob", .null], [.text "cyd", .int 7], [.text "ann", .int 4],
    [.text "dee", .null]]

/-- Those seen at an unknown door are one group, and the row that is repeated is in its group twice.
-/
theorem groupRows_divides_sightings :
    ∃ blocks : List (List (Fin 5)),
      sightings.groupRows [.column "s" "door" .int64] = .ok (blocks.map (List.map sightings.rows.get)) ∧
      Divides (fun i j => (sightings.rows.get i).drop 1 == (sightings.rows.get j).drop 1)
        (List.finRange 5) blocks ∧
      blocks.map (List.map sightings.rows.get) =
        [[[.text "ann", .int 4], [.text "ann", .int 4]],
          [[.text "bob", .null], [.text "dee", .null]], [[.text "cyd", .int 7]]] := by
  have hkey : ∀ row ∈ sightings.rows,
      Expr.evaluateList (rowEnv sightings.columns row) [.column "s" "door" .int64] =
        .ok (row.drop 1) := by
    simp only [sightings, List.forall_mem_cons]
    exact ⟨rfl, rfl, rfl, rfl, rfl, fun _ hrow => absurd hrow List.not_mem_nil⟩
  obtain ⟨blocks, hgroups, hdivides⟩ := groupRows_divides (List.cons_ne_nil _ _) hkey
  exact ⟨blocks, hgroups, hdivides, Except.ok.inj (hgroups.symm.trans rfl)⟩

end Relation

end QueryTree
