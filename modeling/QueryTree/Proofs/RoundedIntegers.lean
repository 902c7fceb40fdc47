import Mathlib
import QueryTree.Proofs.ValueOrder

/-!
# Integers as doubles

An integer is compared with a double as the double nearest to it. From 53 bits on this is another
number, so different integers can become equal. They cannot change places: rounding keeps the order
(`Binary64.exists_rank?_ofInt_le`).

A significand of too many bits loses its last ones one by one, and what is lost is remembered in two
bits. Read as one number of quarters, the significand with these bits is in an order that each step
keeps, and rounding too. Across exponents, doubles are counted from zero (`Binary64.place`): a
significand that overflows in rounding is taken to the next exponent, and this does not change the
count.
-/

namespace QueryTree

namespace Binary64

open Float.Model
open Float.Model.UnpackedFloat hiding pack unpack round normalize

/-! ### Dropping bits of a significand -/

/-- A significand and its two residual bits as one number. -/
def quarters (em : ExtendedMantissa) : Nat :=
  4 * em.mantissa + 2 * em.roundBit.toNat + em.stickyBit.toNat

theorem toNat_mod_two_ne_zero (m : Nat) : (m % 2 != 0).toNat = m % 2 := by
  rcases Nat.mod_two_eq_zero_or_one m with h | h <;> rw [h] <;> rfl

/-- Shifting out a bit keeps the order, the residual bits included. -/
theorem quarters_shiftRightOne_le {em em' : ExtendedMantissa} (h : quarters em ≤ quarters em') :
    quarters em.shiftRightOne ≤ quarters em'.shiftRightOne := by
  obtain ⟨m, r, s⟩ := em
  obtain ⟨m', r', s'⟩ := em'
  simp only [quarters, ExtendedMantissa.shiftRightOne, toNat_mod_two_ne_zero] at h ⊢
  cases r <;> cases s <;> cases r' <;> cases s' <;>
    simp only [Bool.toNat_true, Bool.toNat_false, Bool.or_true, Bool.or_false] at h ⊢ <;> omega

/-- Rounding keeps the order. -/
theorem roundedMantissa_le {em em' : ExtendedMantissa} (h : quarters em ≤ quarters em') :
    em.roundedMantissa ≤ em'.roundedMantissa := by
  obtain ⟨m, r, s⟩ := em
  obtain ⟨m', r', s'⟩ := em'
  simp only [quarters] at h
  cases r <;> cases s <;> cases r' <;> cases s' <;>
    simp only [Bool.toNat_true, Bool.toNat_false, ExtendedMantissa.roundedMantissa,
      ExtendedMantissa.accuracy, Accuracy.roundToNearestEven] at h ⊢ <;> omega

/-- Rounding adds one to the significand or nothing. -/
theorem roundedMantissa_bounds (em : ExtendedMantissa) :
    em.mantissa ≤ em.roundedMantissa ∧ em.roundedMantissa ≤ em.mantissa + 1 := by
  obtain ⟨m, r, s⟩ := em
  cases r <;> cases s <;>
    simp only [ExtendedMantissa.roundedMantissa, ExtendedMantissa.accuracy,
      Accuracy.roundToNearestEven] <;> omega

/-- The significand without its last `k` bits. -/
def shifted (m k : Nat) : ExtendedMantissa := ExtendedMantissa.ofMantissaAndAccuracy m .exact >>> k

/-- Bits are shifted out one by one. -/
theorem shifted_succ (m k : Nat) : shifted m (k + 1) = (shifted m k).shiftRightOne := rfl

/-- The significand that is left is the quotient. -/
theorem shifted_mantissa (m k : Nat) : (shifted m k).mantissa = m / 2 ^ k := by
  induction k with
  | zero => exact (Nat.div_one m).symm
  | succ k ih =>
    rw [shifted_succ, ExtendedMantissa.shiftRightOne, ih, Nat.div_div_eq_div_mul, Nat.pow_succ]

/-- Shifting keeps the order of significands. -/
theorem quarters_shifted_le {m m' : Nat} (h : m ≤ m') (k : Nat) :
    quarters (shifted m k) ≤ quarters (shifted m' k) := by
  induction k with
  | zero => exact Nat.mul_le_mul_left 4 h
  | succ k ih => exact quarters_shiftRightOne_le ih

/-- Nothing is lost of zeros that are shifted out. -/
theorem shifted_mul_two_pow (m k : Nat) : shifted (m * 2 ^ k) k = ⟨m, false, false⟩ := by
  induction k generalizing m with
  | zero => rw [Nat.pow_zero, Nat.mul_one]; rfl
  | succ k ih =>
    rw [shifted_succ, Nat.pow_succ', ← Nat.mul_assoc, ih, ExtendedMantissa.shiftRightOne]
    simp

/-- The number nearest to `m / 2 ^ k`, the even one of two. -/
def nearest (m k : Nat) : Nat := (shifted m k).roundedMantissa

/-- The nearest number grows with the number. -/
theorem nearest_le_nearest {m m' : Nat} (h : m ≤ m') (k : Nat) : nearest m k ≤ nearest m' k :=
  roundedMantissa_le (quarters_shifted_le h k)

/-- The nearest number is the quotient or the next one. -/
theorem nearest_bounds (m k : Nat) : m / 2 ^ k ≤ nearest m k ∧ nearest m k ≤ m / 2 ^ k + 1 := by
  rw [← shifted_mantissa]
  exact roundedMantissa_bounds _

/-- A multiple of the divisor is nearest to its own quotient. -/
theorem nearest_mul_two_pow (m k : Nat) : nearest (m * 2 ^ k) k = m := by
  rw [nearest, shifted_mul_two_pow]
  rfl

/-! ### Rounding -/

/-- A significand of 53 bits and an exponent that a double can have with it. -/
structure Normal (m : Nat) (e : Int) : Prop where
  le_significand : 2 ^ 52 ≤ m
  significand_lt : m < 2 ^ 53
  le_exponent : -1074 ≤ e
  exponent_le : e ≤ 971

/-- How far from zero a double is among those of its sign. A significand that is twice the least one
is in the place of the least one with the next exponent. -/
def place (m : Nat) (e : Int) : Int := m + 2 ^ 52 * e

/-- The normal double of a sign that is at a place. -/
def IsAt (u : UnpackedFloat) (s : Sign) (p : Int) : Prop :=
  ∃ m e hm, u = .finite s m e hm ∧ Normal m e ∧ place m e = p

/-- A normal significand has 53 bits. -/
theorem Normal.log2 {m : Nat} {e : Int} (h : Normal m e) : m.log2 = 52 :=
  (Nat.log2_eq_iff (Nat.ne_of_gt ((Nat.two_pow_pos 52).trans_le h.le_significand))).2
    ⟨h.le_significand, h.significand_lt⟩

/-- Places are in the order of the exponents, then of the significands. -/
theorem Normal.le_of_place_le {m m' : Nat} {e e' : Int} (h : Normal m e) (h' : Normal m' e')
    (hplace : place m e ≤ place m' e') : e < e' ∨ e = e' ∧ m ≤ m' := by
  obtain ⟨hle, hlt, -, -⟩ := h
  obtain ⟨hle', hlt', -, -⟩ := h'
  rw [place, place] at hplace
  omega

/-- A place belongs to one normal double of each sign. -/
theorem IsAt.eq_finite {u : UnpackedFloat} {s : Sign} {m : Nat} {e : Int} (hu : IsAt u s (place m e))
    (h : Normal m e) (hm : 0 < m) : u = .finite s m e hm := by
  obtain ⟨m', e', hm', rfl, h', hplace⟩ := hu
  have hle := h'.le_of_place_le h hplace.le
  have hge := h.le_of_place_le h' hplace.ge
  obtain ⟨rfl, rfl⟩ : m' = m ∧ e' = e := by omega
  rfl

theorem targetExponent_eq (m : Nat) (e : Int) :
    Format.binary64.targetExponent (totalExponent m e) = max (m.log2 + e - 52) (-1074) := by
  have hmin : Format.binary64.minExponent = -1074 := rfl
  have hbits : (Format.binary64.mantissaBits : Int) = 53 := rfl
  rw [Format.targetExponent, totalExponent, hmin, hbits]
  congr 1
  omega

/-- A number of 53 bits or more is shifted until it has 53. -/
theorem shiftToTargetExponent_eq {m : Nat} {e : Int} (hm : 52 ≤ m.log2)
    (he : -1074 ≤ e + (m.log2 - 52 : Nat)) :
    shiftToTargetExponent .binary64 m e .exact =
      (shifted m (m.log2 - 52), e + (m.log2 - 52 : Nat)) := by
  have hamount : (Format.binary64.targetExponent (totalExponent m e) - e).toNat = m.log2 - 52 := by
    rw [targetExponent_eq]
    omega
  rw [shiftToTargetExponent, shiftToExponent, hamount]
  rfl

/-- A rounded significand has 53 bits, or it is shifted once more. Its place stays. -/
theorem exists_shiftToTargetExponent {q : Nat} {e : Int} (hle : 2 ^ 52 ≤ q) (hq : q ≤ 2 ^ 53)
    (hlow : -1074 ≤ e) (hhigh : e < 971) :
    ∃ em e', shiftToTargetExponent .binary64 q e .exact = (em, e') ∧ Normal em.mantissa e' ∧
      place em.mantissa e' = place q e := by
  rcases Nat.lt_or_eq_of_le hq with hlt | rfl
  · have hlog : q.log2 = 52 := (Nat.log2_eq_iff (by omega)).2 ⟨hle, hlt⟩
    have hshift := shiftToTargetExponent_eq (m := q) (e := e) (by omega) (by omega)
    rw [hlog, Nat.sub_self, Int.natCast_zero, Int.add_zero] at hshift
    exact ⟨_, _, hshift, ⟨hle, hlt, hlow, Int.le_of_lt hhigh⟩, rfl⟩
  · have hlog : (2 ^ 53).log2 = 53 := Nat.log2_two_pow
    have hshift := shiftToTargetExponent_eq (m := 2 ^ 53) (e := e) (by omega) (by omega)
    rw [hlog] at hshift
    have hmantissa : (shifted (2 ^ 53) (53 - 52)).mantissa = 2 ^ 52 := shifted_mantissa _ _
    refine ⟨_, _, hshift, ?_, ?_⟩
    · rw [hmantissa]
      exact ⟨Nat.le_refl _, by omega, by omega, by omega⟩
    · rw [hmantissa, place, place]
      omega

/-- What comes of it has 53 bits, or is the power of two after them. -/
theorem nearest_log2_bounds {m : Nat} (hm : 52 ≤ m.log2) :
    2 ^ 52 ≤ nearest m (m.log2 - 52) ∧ nearest m (m.log2 - 52) ≤ 2 ^ 53 := by
  have hpos : m ≠ 0 := fun h => by simp [h] at hm
  have hle : 2 ^ 52 ≤ m / 2 ^ (m.log2 - 52) := by
    rw [Nat.le_div_iff_mul_le (Nat.two_pow_pos _), ← Nat.pow_add, Nat.add_sub_cancel' hm]
    exact Nat.log2_self_le hpos
  have hlt : m / 2 ^ (m.log2 - 52) < 2 ^ 53 := by
    rw [Nat.div_lt_iff_lt_mul (Nat.two_pow_pos _), ← Nat.pow_add,
      show 53 + (m.log2 - 52) = m.log2 + 1 by omega]
    exact Nat.lt_log2_self
  obtain ⟨hq, hq'⟩ := nearest_bounds m (m.log2 - 52)
  exact ⟨hle.trans hq, hq'.trans hlt⟩

/-- Rounding takes a significand of more bits to the nearest one of 53. -/
theorem isAt_roundWithAccuracy (s : Sign) {m : Nat} {e : Int} (hm : 52 ≤ m.log2)
    (hlow : -1074 ≤ e + (m.log2 - 52 : Nat)) (hhigh : e + (m.log2 - 52 : Nat) < 971) :
    IsAt (roundWithAccuracy .binary64 s m e .exact) s
      (place (nearest m (m.log2 - 52)) (e + (m.log2 - 52 : Nat))) := by
  obtain ⟨hle, hge⟩ := nearest_log2_bounds hm
  obtain ⟨em, e', hagain, hnormal, hplace⟩ := exists_shiftToTargetExponent hle hge hlow hhigh
  have hpos : 0 < em.mantissa := (Nat.two_pow_pos 52).trans_le hnormal.le_significand
  refine ⟨em.mantissa, e', hpos, ?_, hnormal, hplace⟩
  rw [nearest] at hagain
  rw [roundWithAccuracy, shiftToTargetExponent_eq hm hlow]
  simp only [hagain]
  exact dif_neg (Nat.ne_of_gt hpos)

/-! ### Packing -/

/-- The leading bit of a significand is not stored. -/
theorem toNat_one_append_ofNat {m : Nat} (hle : 2 ^ 52 ≤ m) (hlt : m < 2 ^ 53) :
    (1#1 ++ BitVec.ofNat 52 m).toNat = m := by
  have hadd : (1#1 ++ BitVec.ofNat 52 m).toNat = 2 ^ 52 * 1 + m % 2 ^ 52 := by
    rw [Nat.two_pow_add_eq_or_of_lt (Nat.mod_lt m (Nat.two_pow_pos 52)) 1, BitVec.toNat_append,
      BitVec.toNat_ofNat]
    rfl
  omega

/-- A normal double is packed with its exponent biased and the first bit of its significand left
out. -/
theorem Normal.pack_eq (s : Sign) {m : Nat} {e : Int} (h : Normal m e) (hm : 0 < m) :
    UnpackedFloat.pack .binary64 (.finite s m e hm) =
      packComponents .binary64 s (BitVec.ofNat 11 (e + 1075).toNat) (BitVec.ofNat 52 m) := by
  have hbias : (e + Format.binary64.exponentBias + Format.binary64.mantissaBitsWithoutImplicit).toNat =
      (e + 1075).toNat := by
    have hexponent : (Format.binary64.exponentBias : Int) = 1023 := rfl
    have hbits : (Format.binary64.mantissaBitsWithoutImplicit : Int) = 52 := rfl
    rw [hexponent, hbits]
    omega
  have hfinite : ¬2 ^ 11 ≤ (e + 1075).toNat + 1 := by
    have := h.exponent_le
    omega
  rw [UnpackedFloat.pack]
  simp only [hbias]
  rw [if_neg hfinite, h.log2]
  exact if_pos rfl

/-- Packing a normal double loses nothing. The stored exponent is neither zero nor all ones, so the
bits are not taken for those of a small number or of a special value. -/
theorem Normal.unpack_pack (s : Sign) {m : Nat} {e : Int} (h : Normal m e) (hm : 0 < m) :
    (pack (.finite s m e hm)).unpack = .finite s m e hm := by
  change UnpackedFloat.unpack .binary64 (UnpackedFloat.pack .binary64 (.finite s m e hm)) = _
  rw [h.pack_eq]
  obtain ⟨hle, hlt, hlow, hhigh⟩ := h
  have hbits : (BitVec.ofNat 11 (e + 1075).toNat).toNat = (e + 1075).toNat := by
    rw [BitVec.toNat_ofNat]
    exact Nat.mod_eq_of_lt (by omega)
  -- the exponents of all bits and of none are those of the special values and of small numbers
  have hfinite : BitVec.ofNat 11 (e + 1075).toNat ≠ -1#11 := fun heq => by
    have hval : (e + 1075).toNat = 2047 := hbits.symm.trans (congrArg BitVec.toNat heq)
    omega
  have hnormal : BitVec.ofNat 11 (e + 1075).toNat ≠ 0#11 := fun heq => by
    have hval : (e + 1075).toNat = 0 := hbits.symm.trans (congrArg BitVec.toNat heq)
    omega
  rw [UnpackedFloat.unpack]
  simp only [unpackMantissa_packComponents, unpackExponent_packComponents,
    unpackSign_packComponents, Sign.ofBitVec_toBitVec]
  rw [if_neg hfinite, if_neg hnormal, finite.injEq]
  refine ⟨rfl, toNat_one_append_ofNat hle hlt, ?_⟩
  have hbias : (Format.binary64.exponentBias : Int) = 1023 := rfl
  rw [hbits, hbias]
  omega

/-- Packing keeps a normal double. -/
theorem IsAt.unpack_pack {u : UnpackedFloat} {s : Sign} {p : Int} (h : IsAt u s p) :
    (pack u).unpack = u := by
  obtain ⟨m, e, hm, rfl, hnormal, -⟩ := h
  exact hnormal.unpack_pack s hm

/-- The negated double is at the same place, with the other sign. -/
theorem IsAt.neg {u : UnpackedFloat} {p : Int} (h : IsAt u .positive p) : IsAt u.neg .negative p := by
  obtain ⟨m, e, hm, rfl, hnormal, hplace⟩ := h
  exact ⟨m, e, hm, rfl, hnormal, hplace⟩

/-! ### Natural numbers -/

/-- The place of the double nearest to a number. -/
def placeOf (n : Nat) : Int := place (nearest (n * 2 ^ 53) (n.log2 + 1)) (n.log2 - 52)

theorem log2_mul_two_pow {n : Nat} (hn : 0 < n) (k : Nat) : (n * 2 ^ k).log2 = n.log2 + k := by
  have hne : n * 2 ^ k ≠ 0 := Nat.ne_of_gt (Nat.mul_pos hn (Nat.two_pow_pos k))
  rw [Nat.log2_eq_iff hne, Nat.add_right_comm, Nat.pow_add, Nat.pow_add]
  exact ⟨Nat.mul_le_mul_right _ (Nat.log2_self_le (Nat.ne_of_gt hn)),
    Nat.mul_lt_mul_of_pos_right Nat.lt_log2_self (Nat.two_pow_pos k)⟩

theorem log2_lt {n k : Nat} (hn : 0 < n) (h : n < 2 ^ k) : n.log2 < k :=
  (Nat.log2_lt (Nat.ne_of_gt hn)).2 h

/-- Rounding keeps the order: within one binary order of magnitude by that of the quotients, and
from one to the next by a carry at most. -/
theorem placeOf_le_placeOf {n k : Nat} (hn : 0 < n) (h : n ≤ k) : placeOf n ≤ placeOf k := by
  have hbounds : ∀ {n : Nat}, 0 < n → 2 ^ 52 ≤ nearest (n * 2 ^ 53) (n.log2 + 1) ∧
      nearest (n * 2 ^ 53) (n.log2 + 1) ≤ 2 ^ 53 := by
    intro n hn
    have hshift := log2_mul_two_pow hn 53
    have hnearest := nearest_log2_bounds (m := n * 2 ^ 53) (by omega)
    rwa [hshift, show n.log2 + 53 - 52 = n.log2 + 1 by omega] at hnearest
  have hlog : n.log2 ≤ k.log2 :=
    (Nat.le_log2 (by omega)).2 ((Nat.log2_self_le (Nat.ne_of_gt hn)).trans h)
  rw [placeOf, placeOf, place, place]
  rcases Nat.eq_or_lt_of_le hlog with heq | hlt
  -- equally many bits are lost
  · have hq := nearest_le_nearest (Nat.mul_le_mul_right (2 ^ 53) h) (k.log2 + 1)
    rw [heq]
    omega
  -- the greatest significand is at most the least one of the next exponent
  · have hle := (hbounds hn).2
    have hge := (hbounds (hn.trans_le h)).1
    omega

/-- Before it is rounded the number gets 53 bits more, so that there are always some to lose. -/
theorem unpacked_ofScientific_zero {n : Nat} (hn : 0 < n) :
    UnpackedFloat.ofScientific .binary64 n 0 =
      roundWithAccuracy .binary64 .positive (n * 2 ^ 53) (-53) .exact := by
  have hsmall : ¬(0 : Int) < -(2 ^ 11 + n.log2) := by omega
  rw [UnpackedFloat.ofScientific, dif_neg (Nat.ne_of_gt hn), if_neg (by decide), if_neg hsmall,
    if_pos (Int.le_refl 0), UnpackedFloat.mul]
  change roundWithAccuracy .binary64 .positive (n <<< 53 * 1) (-53) .exact = _
  rw [Nat.shiftLeft_eq, Nat.mul_one]

/-- Numbers of more than 53 bits are rounded. -/
theorem isAt_ofNat_of_le {n : Nat} (hle : 2 ^ 53 ≤ n) (hlt : n < 2 ^ 64) :
    IsAt (Float.ofNat n).toModel.unpack .positive (placeOf n) := by
  have hn : 0 < n := (Nat.two_pow_pos 53).trans_le hle
  have hlog := log2_lt hn hlt
  have hshift := log2_mul_two_pow hn 53
  have hround := isAt_roundWithAccuracy .positive (m := n * 2 ^ 53) (e := -53) (by omega) (by omega)
    (by omega)
  have hofNat : (Float.ofNat n).toModel = pack (UnpackedFloat.ofScientific .binary64 n 0) := by
    change (Float.ofScientific n false 0).toModel = _
    rw [Float.ofScientific, dif_neg fun h => Nat.not_lt.2 hle h.1]
    rfl
  rw [hofNat, unpacked_ofScientific_zero hn, hround.unpack_pack]
  rw [hshift, show (-53 : Int) + (n.log2 + 53 - 52 : Nat) = n.log2 - 52 by omega] at hround
  exact hround

/-- A number below 2 ^ 53 is normal after shifting to the left. -/
theorem normal_of_lt {n : Nat} (hn : 0 < n) (hlt : n < 2 ^ 53) :
    Normal (n * 2 ^ (52 - n.log2)) (n.log2 - 52) := by
  have hlog := log2_lt hn hlt
  have hm : 0 < n * 2 ^ (52 - n.log2) := Nat.mul_pos hn (Nat.two_pow_pos _)
  have hbits := log2_mul_two_pow hn (52 - n.log2)
  rw [Nat.log2_eq_iff (Nat.ne_of_gt hm), Nat.add_sub_cancel' (by omega)] at hbits
  exact ⟨hbits.1, hbits.2, by omega, by omega⟩

/-- Its place is that of the number itself, which is not rounded. -/
theorem placeOf_of_lt {n : Nat} (hn : 0 < n) (hlt : n < 2 ^ 53) :
    placeOf n = place (n * 2 ^ (52 - n.log2)) (n.log2 - 52) := by
  have hlog := log2_lt hn hlt
  have hwhole : n * 2 ^ 53 = n * 2 ^ (52 - n.log2) * 2 ^ (n.log2 + 1) := by
    rw [Nat.mul_assoc, ← Nat.pow_add, show 52 - n.log2 + (n.log2 + 1) = 53 by omega]
  rw [placeOf, hwhole, nearest_mul_two_pow]

/-- Rounding it begins with the shift to the left. -/
theorem round_of_lt {n : Nat} (hn : 0 < n) (hlt : n < 2 ^ 53) :
    UnpackedFloat.round .binary64 .positive n 0 =
      roundWithAccuracy .binary64 .positive (n * 2 ^ (52 - n.log2)) (n.log2 - 52) .exact := by
  have hlog := log2_lt hn hlt
  have htarget : Format.binary64.targetExponent (totalExponent n 0) = n.log2 - 52 := by
    rw [targetExponent_eq]
    omega
  have hamount : (0 - ((n.log2 : Int) - 52)).toNat = 52 - n.log2 := by omega
  have hexponent : (0 : Int) - (52 - n.log2 : Nat) = n.log2 - 52 := by omega
  rw [UnpackedFloat.round, htarget, decreaseExponent, hamount, Nat.shiftLeft_eq]
  simp only [hexponent]

/-- A number below 2 ^ 53 has an exact double. -/
theorem unpack_toFloat_of_lt {n : Nat} (hn : 0 < n) (hlt : n < 2 ^ 53) :
    n.toUInt64.toFloat.toModel.unpack =
      .finite .positive (n * 2 ^ (52 - n.log2)) (n.log2 - 52)
        (Nat.mul_pos hn (Nat.two_pow_pos _)) := by
  have hlog := log2_lt hn hlt
  have hnormal := normal_of_lt hn hlt
  have hbits := hnormal.log2
  have hwide : n.toUInt64.toNat = n := UInt64.toNat_ofNat_of_lt' (hlt.trans (by decide))
  have hsign : compare (n : Int) 0 = .gt := Int.compare_eq_gt.2 (Int.natCast_pos.2 hn)
  have hround := isAt_roundWithAccuracy .positive (m := n * 2 ^ (52 - n.log2)) (e := n.log2 - 52)
    (by omega) (by omega) (by omega)
  change (pack (UnpackedFloat.ofInt .binary64 n.toUInt64.toNat)).unpack = _
  rw [hwide, UnpackedFloat.ofInt, UnpackedFloat.normalize, hsign]
  change (pack (UnpackedFloat.round .binary64 .positive n 0)).unpack = _
  rw [round_of_lt hn hlt, hround.unpack_pack]
  -- no bit is shifted out
  rw [hbits, Nat.sub_self, Int.natCast_zero, Int.add_zero] at hround
  exact hround.eq_finite hnormal _

/-- A number of up to 53 bits is converted as it is and multiplied by one. -/
theorem ofNat_of_lt {n : Nat} (hlt : n < 2 ^ 53) :
    Float.ofNat n = n.toUInt64.toFloat * Float.ofBits 0x3FF0000000000000 := by
  change Float.ofScientific n false 0 = _
  rw [Float.ofScientific, dif_pos ⟨hlt, Nat.zero_le 22⟩]
  rfl

/-- Numbers of up to 53 bits are doubles. -/
theorem isAt_ofNat_of_lt {n : Nat} (hn : 0 < n) (hlt : n < 2 ^ 53) :
    IsAt (Float.ofNat n).toModel.unpack .positive (placeOf n) := by
  have hlog := log2_lt hn hlt
  have hbits := (normal_of_lt hn hlt).log2
  have hshift := log2_mul_two_pow (Nat.mul_pos hn (Nat.two_pow_pos (52 - n.log2))) 52
  have hround := isAt_roundWithAccuracy .positive (m := n * 2 ^ (52 - n.log2) * 2 ^ 52)
    (e := n.log2 - 52 + -52) (by omega) (by omega) (by omega)
  have hone : (Float.ofBits 0x3FF0000000000000).toModel.unpack =
      .finite .positive (2 ^ 52) (-52) (Nat.two_pow_pos 52) := rfl
  rw [ofNat_of_lt hlt]
  change IsAt (pack (UnpackedFloat.mul .binary64 n.toUInt64.toFloat.toModel.unpack
    (Float.ofBits 0x3FF0000000000000).toModel.unpack)).unpack _ _
  rw [unpack_toFloat_of_lt hn hlt, hone]
  change IsAt (pack (roundWithAccuracy .binary64 .positive _ _ .exact)).unpack _ _
  rw [hround.unpack_pack, placeOf_of_lt hn hlt]
  rw [hshift, hbits, Nat.add_sub_cancel, nearest_mul_two_pow,
    show (n.log2 : Int) - 52 + -52 + (52 : Nat) = n.log2 - 52 by omega] at hround
  exact hround

/-- A number of up to 64 bits becomes the double nearest to it. -/
theorem isAt_ofNat {n : Nat} (hn : 0 < n) (hlt : n < 2 ^ 64) :
    IsAt (Float.ofNat n).toModel.unpack .positive (placeOf n) := by
  rcases Nat.lt_or_ge n (2 ^ 53) with hsmall | hlarge
  · exact isAt_ofNat_of_lt hn hsmall
  · exact isAt_ofNat_of_le hlarge hlt

/-! ### Integers -/

/-- The double of a positive integer is at the place of the integer. -/
theorem isAt_ofInt_of_pos {n : Int} (hn : 0 < n) (hlt : n < 2 ^ 64) :
    IsAt (Float.ofInt n).toModel.unpack .positive (placeOf n.natAbs) := by
  obtain ⟨k, rfl⟩ := Int.eq_ofNat_of_zero_le (Int.le_of_lt hn)
  exact isAt_ofNat (by omega) (by omega)

/-- That of a negative one is at the place of its absolute value. -/
theorem isAt_ofInt_of_neg {n : Int} (hn : n < 0) (hlt : -2 ^ 64 < n) :
    IsAt (Float.ofInt n).toModel.unpack .negative (placeOf n.natAbs) := by
  obtain ⟨k, rfl⟩ := Int.eq_negSucc_of_lt_zero hn
  have hneg := (isAt_ofNat (n := k.succ) (by omega) (by omega)).neg
  change IsAt (pack (Float.ofNat k.succ).toModel.unpack.neg).unpack _ _
  rw [hneg.unpack_pack]
  exact hneg

/-- Ranks are compared by sign, exponent and significand. -/
theorem compareRank_isLE_iff (s e m s' e' m' : Int) :
    (compareRank (s, e, m) (s', e', m')).isLE = true ↔
      s < s' ∨ s = s' ∧ (e < e' ∨ e = e' ∧ m ≤ m') := by
  simp only [compareRank, compareLex, compareOn, Ordering.isLE_then_iff_or, Int.compare_eq_lt,
    Int.isLE_compare, Std.compare_eq_iff_eq]

/-- The rank of zero. -/
theorem rank?_ofInt_zero : rank? (Float.ofInt 0) = some (0, 0, 0) := rfl

/-- The rank of a positive normal double shows its exponent and significand. -/
theorem IsAt.exists_rank?_of_pos {x : Float} {p : Int} (h : IsAt x.toModel.unpack .positive p) :
    ∃ (m : Nat) (e : Int), rank? x = some (1, e, (m : Int)) ∧ Normal m e ∧ place m e = p := by
  obtain ⟨m, e, hm, hunpack, hnormal, hplace⟩ := h
  exact ⟨m, e, congrArg unpackedRank? hunpack, hnormal, hplace⟩

/-- The rank of a negative one shows both negated, so that larger ones come first. -/
theorem IsAt.exists_rank?_of_neg {x : Float} {p : Int} (h : IsAt x.toModel.unpack .negative p) :
    ∃ (m : Nat) (e : Int), rank? x = some (-1, -e, -(m : Int)) ∧ Normal m e ∧ place m e = p := by
  obtain ⟨m, e, hm, hunpack, hnormal, hplace⟩ := h
  exact ⟨m, e, congrArg unpackedRank? hunpack, hnormal, hplace⟩

/-- Integers keep their order as doubles, though different ones may become equal. By the signs of
the two. If these are the same, the places that the integers are rounded to are compared, and
rounding keeps their order. -/
theorem exists_rank?_ofInt_le {m n : Int} (h : m ≤ n) (hm : -2 ^ 64 < m) (hn : n < 2 ^ 64) :
    ∃ x y, rank? (Float.ofInt m) = some x ∧ rank? (Float.ofInt n) = some y ∧
      (compareRank x y).isLE = true := by
  rcases Int.lt_trichotomy m 0 with hm0 | rfl | hm0
  · obtain ⟨a, d, hm', hnormal, hplace⟩ := (isAt_ofInt_of_neg hm0 hm).exists_rank?_of_neg
    rcases Int.lt_trichotomy n 0 with hn0 | rfl | hn0
    · obtain ⟨b, e, hn', hnormal', hplace'⟩ :=
        (isAt_ofInt_of_neg hn0 (by omega)).exists_rank?_of_neg
      have hle := placeOf_le_placeOf (n := n.natAbs) (k := m.natAbs) (by omega) (by omega)
      have hlex := hnormal'.le_of_place_le hnormal (by omega)
      exact ⟨_, _, hm', hn', (compareRank_isLE_iff ..).2 (by omega)⟩
    · exact ⟨_, _, hm', rank?_ofInt_zero, (compareRank_isLE_iff ..).2 (by omega)⟩
    · obtain ⟨b, e, hn', -, -⟩ := (isAt_ofInt_of_pos hn0 hn).exists_rank?_of_pos
      exact ⟨_, _, hm', hn', (compareRank_isLE_iff ..).2 (by omega)⟩
  · rcases Int.lt_or_eq_of_le h with hn0 | rfl
    · obtain ⟨b, e, hn', -, -⟩ := (isAt_ofInt_of_pos hn0 hn).exists_rank?_of_pos
      exact ⟨_, _, rank?_ofInt_zero, hn', (compareRank_isLE_iff ..).2 (by omega)⟩
    · exact ⟨_, _, rank?_ofInt_zero, rank?_ofInt_zero, rfl⟩
  · obtain ⟨a, d, hm', hnormal, hplace⟩ := (isAt_ofInt_of_pos hm0 (by omega)).exists_rank?_of_pos
    obtain ⟨b, e, hn', hnormal', hplace'⟩ :=
      (isAt_ofInt_of_pos (n := n) (by omega) hn).exists_rank?_of_pos
    have hle := placeOf_le_placeOf (n := m.natAbs) (k := n.natAbs) (by omega) (by omega)
    have hlex := hnormal.le_of_place_le hnormal' (by omega)
    exact ⟨_, _, hm', hn', (compareRank_isLE_iff ..).2 (by omega)⟩

end Binary64

end QueryTree
