import Mathlib.Data.List.Basic
import QueryTree.Memory.Relation

/-!
# Sums that are checked at every step

A sum of 64-bit integers is computed from left to right, and it fails as soon as a partial sum does
not fit into 64 bits (`sumInts?_eq_some_iff`). So it can fail although the total fits: it depends on
the order in which the summands come.

The partial sums of one list, in all its orders, lie between the total of its negative summands and
that of its positive ones (`isPrefix_bounds`), and some order reaches each of the two. On the other
side, a total that fits can always be reached without leaving the range: there is a next summand
that keeps the partial sum in it (`exists_fits_step`), since each summand fits by itself. Hence the
order is of no account in two cases only: the total does not fit, or the two totals by sign do
(`sumInts?_perm_iff`).
-/

namespace QueryTree

namespace Checked

/-- The integer has a 64-bit representation. -/
def Fits (n : Int) : Prop := Int64.minValue.toInt ≤ n ∧ n ≤ Int64.maxValue.toInt

theorem fits_toInt (n : Int64) : Fits n.toInt := ⟨n.minValue_le_toInt, n.toInt_le⟩

/-- What is between two integers that fit fits. -/
theorem Fits.between {a b n : Int} (ha : Fits a) (hb : Fits b) (han : a ≤ n) (hnb : n ≤ b) :
    Fits n :=
  ⟨Int.le_trans ha.1 han, Int.le_trans hnb hb.2⟩

theorem toInt_ofInt {n : Int} (h : Fits n) : (Int64.ofInt n).toInt = n :=
  Int64.toInt_ofInt_of_le h.1 (Int.lt_add_one_of_le h.2)

/-- The checked conversion gives the 64-bit integer of the same value, and only that. -/
theorem ofInt?_eq_some_iff {n : Int} {c : Int64} : ofInt? n = some c ↔ c.toInt = n := by
  unfold ofInt?
  constructor
  · intro h
    split at h
    next hn =>
      obtain rfl := Option.some.inj h
      exact toInt_ofInt hn
    next => cases h
  · rintro rfl
    have hc : Int64.minValue.toInt ≤ c.toInt ∧ c.toInt ≤ Int64.maxValue.toInt := fits_toInt c
    rw [if_pos hc, Int64.ofInt_toInt]

end Checked

namespace Relation

open Checked

/-! ### Totals -/

/-- The exact sum. -/
def total : List Int64 → Int
  | [] => 0
  | n :: ns => n.toInt + total ns

/-- The exact sum of the positive summands. -/
def positiveTotal (ns : List Int64) : Int := total (ns.filter fun n => decide (0 < n.toInt))

/-- The exact sum of the negative summands. -/
def negativeTotal (ns : List Int64) : Int := total (ns.filter fun n => decide (n.toInt < 0))

section Totals

variable (n : Int64) (ns : List Int64)

@[simp] theorem total_nil : total [] = 0 := rfl

@[simp] theorem total_cons : total (n :: ns) = n.toInt + total ns := rfl

theorem positiveTotal_cons : positiveTotal (n :: ns) = max n.toInt 0 + positiveTotal ns := by
  unfold positiveTotal
  rw [List.filter_cons]
  by_cases hn : 0 < n.toInt
  · rw [if_pos (decide_eq_true hn), total_cons, Int.max_eq_left (by omega)]
  · rw [if_neg (by simpa using hn), Int.max_eq_right (by omega), Int.zero_add]

theorem negativeTotal_cons : negativeTotal (n :: ns) = min n.toInt 0 + negativeTotal ns := by
  unfold negativeTotal
  rw [List.filter_cons]
  by_cases hn : n.toInt < 0
  · rw [if_pos (decide_eq_true hn), total_cons, Int.min_eq_left (by omega)]
  · rw [if_neg (by simpa using hn), Int.min_eq_right (by omega), Int.zero_add]

end Totals

section Perm

variable {ns ms : List Int64} (h : ns.Perm ms)

include h

/-- The total does not depend on the order of the summands. -/
theorem total_perm : total ns = total ms := by
  induction h with
  | nil => rfl
  | cons n _ ih => rw [total_cons, total_cons, ih]
  | swap n m ns => exact Int.add_left_comm ..
  | trans _ _ ih ih' => exact ih.trans ih'

/-- Nor does the total of the positive ones. -/
theorem positiveTotal_perm : positiveTotal ns = positiveTotal ms := total_perm (h.filter _)

/-- Nor does that of the negative ones. -/
theorem negativeTotal_perm : negativeTotal ns = negativeTotal ms := total_perm (h.filter _)

end Perm

/-- The totals by sign lie on either side of zero. -/
theorem totals_sign (ns : List Int64) : negativeTotal ns ≤ 0 ∧ 0 ≤ positiveTotal ns := by
  induction ns with
  | nil => exact ⟨Int.le_refl 0, Int.le_refl 0⟩
  | cons n ns ih =>
    rw [negativeTotal_cons, positiveTotal_cons]
    omega

/-- Partial sums lie between the totals by sign. -/
theorem isPrefix_bounds {ns p : List Int64} (h : p <+: ns) :
    negativeTotal ns ≤ total p ∧ total p ≤ positiveTotal ns := by
  induction ns generalizing p with
  | nil =>
    obtain rfl := List.prefix_nil.1 h
    exact ⟨Int.le_refl 0, Int.le_refl 0⟩
  | cons n ns ih =>
    rw [negativeTotal_cons, positiveTotal_cons]
    cases p with
    | nil =>
      have := totals_sign ns
      rw [total_nil]
      omega
    | cons m p =>
      obtain ⟨rfl, hp⟩ := List.cons_prefix_cons.1 h
      have := ih hp
      rw [total_cons]
      omega

/-- Summands that are not negative have a total that is not negative. -/
theorem total_nonneg {ns : List Int64} (h : ∀ n ∈ ns, 0 ≤ n.toInt) : 0 ≤ total ns := by
  have hnone : negativeTotal ns = 0 := by
    unfold negativeTotal
    rw [List.filter_eq_nil_iff.2 fun n hn => by simpa using h n hn, total_nil]
  rw [← hnone]
  exact (isPrefix_bounds (List.prefix_refl ns)).1

/-- Summands that are not positive have a total that is not positive. -/
theorem total_nonpos {ns : List Int64} (h : ∀ n ∈ ns, n.toInt ≤ 0) : total ns ≤ 0 := by
  have hnone : positiveTotal ns = 0 := by
    unfold positiveTotal
    rw [List.filter_eq_nil_iff.2 fun n hn => by simpa using h n hn, total_nil]
  rw [← hnone]
  exact (isPrefix_bounds (List.prefix_refl ns)).2

/-! ### Checked sums -/

/-- A checked sum is the exact one, and there is one just in case every partial sum fits. By
induction on the summands, with the sum so far as an accumulator. That the exact sum fits is not
enough, since the sum may leave the range on the way. -/
theorem sumInts?_eq_some_iff {a t : Int64} {ns : List Int64} :
    sumInts? a ns = some t ↔
      t.toInt = a.toInt + total ns ∧ ∀ p, p <+: ns → Fits (a.toInt + total p) := by
  induction ns generalizing a with
  | nil =>
    have hfits : Fits (a.toInt + total []) := by
      rw [total_nil, Int.add_zero]
      exact fits_toInt a
    rw [sumInts?, total_nil, Int.add_zero, Int64.toInt_inj, Option.some.injEq]
    refine ⟨?_, fun h => h.1.symm⟩
    rintro rfl
    refine ⟨rfl, fun p hp => ?_⟩
    obtain rfl := List.prefix_nil.1 hp
    exact hfits
  | cons n ns ih =>
    rw [sumInts?, Option.bind_eq_some_iff]
    constructor
    · rintro ⟨b, hb, hsum⟩
      have hb : b.toInt = a.toInt + n.toInt := ofInt?_eq_some_iff.1 hb
      obtain ⟨ht, hprefix⟩ := ih.1 hsum
      rw [total_cons, ht, hb, Int.add_assoc]
      refine ⟨rfl, fun p hp => ?_⟩
      cases p with
      | nil =>
        rw [total_nil, Int.add_zero]
        exact fits_toInt a
      | cons m p =>
        obtain ⟨rfl, hrest⟩ := List.cons_prefix_cons.1 hp
        have hfits := hprefix p hrest
        rw [hb, Int.add_assoc] at hfits
        rw [total_cons]
        exact hfits
    · rintro ⟨ht, hprefix⟩
      have hfits : Fits (a.toInt + n.toInt) := by
        have h := hprefix [n] ⟨ns, rfl⟩
        rwa [total_cons, total_nil, Int.add_zero] at h
      have hb := toInt_ofInt hfits
      refine ⟨Int64.ofInt (a.toInt + n.toInt), ofInt?_eq_some_iff.2 hb, ih.2 ⟨?_, fun p hp => ?_⟩⟩
      · rw [hb, ht, total_cons, Int.add_assoc]
      · have h := hprefix (n :: p) (List.cons_prefix_cons.2 ⟨rfl, hp⟩)
        rw [total_cons] at h
        rwa [hb, Int.add_assoc]

/-- A partial sum that does not fit leaves no sum. -/
theorem sumInts?_eq_none {a : Int64} {ns p : List Int64} (hp : p <+: ns)
    (h : ¬Fits (a.toInt + total p)) : sumInts? a ns = none := by
  cases hsum : sumInts? a ns with
  | none => rfl
  | some t => exact absurd ((sumInts?_eq_some_iff.1 hsum).2 p hp) h

/-- A running sum that has a result has the total as its result, so without a total that fits there
is none. -/
theorem sumInts?_eq_none_of_total {a : Int64} {ns : List Int64}
    (h : ¬Fits (a.toInt + total ns)) : sumInts? a ns = none :=
  sumInts?_eq_none ⟨[], List.append_nil ns⟩ h

/-- From a partial sum that fits toward a total that fits, one of the summands leads to another
partial sum that fits: one of the opposite sign, or any if there is none. -/
theorem exists_fits_step {a : Int} {ns : List Int64} (hne : ns ≠ []) (ha : Fits a)
    (htotal : Fits (a + total ns)) : ∃ n ∈ ns, Fits (a + n.toInt) := by
  by_cases hsign : 0 ≤ a
  · by_cases hdown : ∃ n ∈ ns, n.toInt ≤ 0
    · obtain ⟨n, hn, hle⟩ := hdown
      exact ⟨n, hn, (fits_toInt n).between ha (by omega) (by omega)⟩
    · -- only positive summands are left, and the total is above every partial sum
      obtain ⟨n, ms, rfl⟩ := List.exists_cons_of_ne_nil hne
      have hpositive : ∀ m ∈ n :: ms, 0 ≤ m.toInt := by
        intro m hm
        by_contra hneg
        exact hdown ⟨m, hm, by omega⟩
      obtain ⟨hn, hms⟩ := List.forall_mem_cons.1 hpositive
      have hrest := total_nonneg hms
      rw [total_cons] at htotal
      exact ⟨n, List.mem_cons_self, ha.between htotal (by omega) (by omega)⟩
  · by_cases hup : ∃ n ∈ ns, 0 ≤ n.toInt
    · obtain ⟨n, hn, hle⟩ := hup
      exact ⟨n, hn, ha.between (fits_toInt n) (by omega) (by omega)⟩
    · obtain ⟨n, ms, rfl⟩ := List.exists_cons_of_ne_nil hne
      have hnegative : ∀ m ∈ n :: ms, m.toInt ≤ 0 := by
        intro m hm
        by_contra hpos
        exact hup ⟨m, hm, by omega⟩
      obtain ⟨hn, hms⟩ := List.forall_mem_cons.1 hnegative
      have hrest := total_nonpos hms
      rw [total_cons] at htotal
      exact ⟨n, List.mem_cons_self, htotal.between ha (by omega) (by omega)⟩

/-- A total that fits is the checked sum in some order. -/
theorem exists_perm_sumInts? {a : Int64} {ns : List Int64} (h : Fits (a.toInt + total ns)) :
    ∃ ms t, ms.Perm ns ∧ sumInts? a ms = some t := by
  induction hlength : ns.length generalizing a ns with
  | zero =>
    obtain rfl := List.length_eq_zero_iff.1 hlength
    exact ⟨[], a, .refl _, rfl⟩
  | succ k ih =>
    have hne : ns ≠ [] := by
      rintro rfl
      cases hlength
    obtain ⟨n, hn, hfits⟩ := exists_fits_step hne (fits_toInt a) h
    have hperm : ns.Perm (n :: ns.erase n) := List.perm_cons_erase hn
    have hrest : Fits ((Int64.ofInt (a.toInt + n.toInt)).toInt + total (ns.erase n)) := by
      rwa [total_perm hperm, total_cons, ← Int.add_assoc, ← toInt_ofInt hfits] at h
    have hshorter : (ns.erase n).length = k := by
      rw [List.length_erase_of_mem hn, hlength]
      rfl
    obtain ⟨ms, t, hms, hsum⟩ := ih hrest hshorter
    refine ⟨n :: ms, t, (hms.cons n).trans hperm.symm, ?_⟩
    rw [sumInts?, Option.bind_eq_some_iff]
    exact ⟨_, ofInt?_eq_some_iff.2 (toInt_ofInt hfits), hsum⟩

/-- The summands with a property first, and the others after them. -/
theorem exists_perm_isPrefix (ns : List Int64) (p : Int64 → Bool) :
    ∃ ms, ms.Perm ns ∧ ns.filter p <+: ms :=
  ⟨_, List.filter_append_perm p ns, List.prefix_append _ _⟩

/-- Where the totals by sign do not both fit, some order has no sum. -/
theorem exists_perm_sumInts?_eq_none {ns : List Int64}
    (h : ¬(Fits (positiveTotal ns) ∧ Fits (negativeTotal ns))) :
    ∃ ms, ms.Perm ns ∧ sumInts? 0 ms = none := by
  have hfirst (p : Int64 → Bool) (hp : ¬Fits (total (ns.filter p))) :
      ∃ ms, ms.Perm ns ∧ sumInts? 0 ms = none := by
    obtain ⟨ms, hms, hprefix⟩ := exists_perm_isPrefix ns p
    refine ⟨ms, hms, sumInts?_eq_none hprefix ?_⟩
    rwa [Int64.toInt_zero, Int.zero_add]
  rcases not_and_or.1 h with hpositive | hnegative
  · exact hfirst _ hpositive
  · exact hfirst _ hnegative

/-- The order of the summands is of no account: their total does not fit, or the totals by sign
do. -/
def OrderFree (ns : List Int64) : Prop :=
  Fits (total ns) → Fits (positiveTotal ns) ∧ Fits (negativeTotal ns)

/-- Sums in two orders are the same, if there are sums. -/
theorem sumInts?_agree {a t t' : Int64} {ns ms : List Int64} (hperm : ms.Perm ns)
    (h : sumInts? a ns = some t) (h' : sumInts? a ms = some t') : t' = t := by
  apply Int64.toInt_inj.1
  rw [(sumInts?_eq_some_iff.1 h).1, (sumInts?_eq_some_iff.1 h').1, total_perm hperm]

/-- A checked sum is the same in every order just in case the total does not fit or the totals by
sign do. -/
theorem sumInts?_perm_iff (ns : List Int64) :
    (∀ ms, ms.Perm ns → sumInts? 0 ms = sumInts? 0 ns) ↔ OrderFree ns := by
  constructor
  · intro hsame htotal
    by_contra hsigns
    obtain ⟨ms, hms, hnone⟩ := exists_perm_sumInts?_eq_none hsigns
    have hstart : Fits ((0 : Int64).toInt + total ns) := by
      rwa [Int64.toInt_zero, Int.zero_add]
    obtain ⟨ms', t, hms', hsome⟩ := exists_perm_sumInts? hstart
    have hboth := (hsame ms hms).trans (hsame ms' hms').symm
    rw [hnone, hsome] at hboth
    cases hboth
  · intro hfree ms hms
    by_cases htotal : Fits (total ns)
    · -- every partial sum lies between the totals by sign
      obtain ⟨hpositive, hnegative⟩ := hfree htotal
      have hsum {ls : List Int64} (hls : ls.Perm ns) :
          sumInts? 0 ls = some (Int64.ofInt (total ns)) := by
        refine sumInts?_eq_some_iff.2 ⟨?_, fun p hp => ?_⟩
        · rw [toInt_ofInt htotal, Int64.toInt_zero, Int.zero_add, total_perm hls]
        · obtain ⟨hlow, hhigh⟩ := isPrefix_bounds hp
          rw [negativeTotal_perm hls] at hlow
          rw [positiveTotal_perm hls] at hhigh
          rw [Int64.toInt_zero, Int.zero_add]
          exact hnegative.between hpositive hlow hhigh
      rw [hsum hms, hsum (.refl ns)]
    · have hnone {ls : List Int64} (hls : ls.Perm ns) : sumInts? 0 ls = none := by
        apply sumInts?_eq_none_of_total
        rwa [Int64.toInt_zero, Int.zero_add, total_perm hls]
      rw [hnone hms, hnone (.refl ns)]

end Relation

end QueryTree
