import Mathlib.Tactic.SplitIfs
import QueryTree.Number.Decimal

/-!
# The text of numbers

A whole number is written by its digits, with a minus sign before them if it is negative
(`toString_int_cases`). A finite double is written by an optional sign, a mantissa of digits with a
point, and an exponent that is a whole number, if there is one (`FloatStyle.text_of_isFinite`,
`FloatStyle.unsigned_statement`). So a minus sign stands before a number or before its exponent, and
nowhere else.
-/

namespace QueryTree

/-! ### Whole numbers -/

/-- A number is written in digits. -/
theorem isDigit_of_mem_toString {n : Nat} {c : Char} (h : c ∈ (toString n).toList) :
    c.isDigit = true := by
  rw [Nat.toString_eq_ofList_toDigits, String.toList_ofList] at h
  exact Nat.isDigit_of_mem_toDigits (by decide) (by decide) h

/-- A number has a text. -/
theorem toString_nat_ne_nil (n : Nat) : (toString n).toList ≠ [] := by
  rw [Nat.toString_eq_ofList_toDigits, String.toList_ofList]
  exact Nat.toDigits_ne_nil

/-- A whole number is written by digits, with a minus sign before them if it is negative. -/
theorem toString_int_cases (n : Int) :
    ∃ digits : List Char, digits ≠ [] ∧ (∀ c ∈ digits, c.isDigit = true) ∧
      (toString n).toList = if n < 0 then '-' :: digits else digits := by
  cases n with
  | ofNat m =>
    refine ⟨(toString m).toList, toString_nat_ne_nil m, fun c hc => isDigit_of_mem_toString hc, ?_⟩
    have hn : ¬Int.ofNat m < 0 := Int.not_lt.2 (Int.natCast_nonneg m)
    rw [if_neg hn]
    rfl
  | negSucc m =>
    refine ⟨(toString (m + 1)).toList, toString_nat_ne_nil _,
      fun c hc => isDigit_of_mem_toString hc, ?_⟩
    have htext : toString (Int.negSucc m) = "-" ++ toString (m + 1) := rfl
    rw [if_pos (Int.negSucc_lt_zero m), htext, String.toList_append]
    rfl

/-! ### Doubles -/

namespace Decimal

/-- Digits that are trimmed are digits. -/
theorem isDigit_of_mem_trim {n : Nat} {c : Char} (h : c ∈ trim (Nat.toDigits 10 n)) :
    c.isDigit = true := by
  rw [trim, List.mem_reverse] at h
  have hmem : c ∈ Nat.toDigits 10 n := List.mem_reverse.1 ((List.dropWhile_sublist _).subset h)
  exact Nat.isDigit_of_mem_toDigits (by decide) (by decide) hmem

/-- A decimal on the grid is written in digits. -/
theorem isDigit_of_mem_onGrid {tie : Tie} {i : Interval} {point : Int} {count : Nat} {d : Decimal}
    (h : onGrid tie i point count = some d) : ∀ c ∈ d.digits, c.isDigit = true := by
  intro c hc
  simp only [onGrid] at h
  split at h
  · split_ifs at h
    · obtain rfl := Option.some.inj h
      exact isDigit_of_mem_trim hc
    · obtain rfl := Option.some.inj h
      exact isDigit_of_mem_trim hc
  · obtain rfl := Option.some.inj h
    exact isDigit_of_mem_trim hc
  · obtain rfl := Option.some.inj h
    exact isDigit_of_mem_trim hc
  · cases h

/-- So is the one that the search ends with. -/
theorem isDigit_of_mem_search (tie : Tie) (i : Interval) (point : Int) (tries count : Nat) :
    ∀ c ∈ (search tie i point tries count).digits, c.isDigit = true := by
  induction tries generalizing count with
  | zero =>
    intro c hc
    obtain rfl : c = '0' := List.mem_singleton.1 hc
    rfl
  | succ tries ih =>
    rw [search]
    cases hgrid : onGrid tie i point count with
    | none => exact ih (count + 1)
    | some d => exact isDigit_of_mem_onGrid hgrid

end Decimal

/-- A character of a number before its exponent; the letter introduces the exponent. -/
def isMantissaChar (c : Char) : Bool := c.isDigit || c == '.' || c == 'e'

namespace FloatStyle

/-- The text of a finite number without its sign. -/
def unsigned (s : FloatStyle) (x : Float) : String :=
  if (Scaled.ofFloat x).significand = 0 then "0" ++ s.wholeSuffix
  else s.layout (Decimal.shortest s.tie (Scaled.ofFloat x).significand (Scaled.ofFloat x).exponent)

/-- A finite double is its sign and its size. -/
theorem text_of_isFinite (s : FloatStyle) {x : Float} (hx : x.isFinite = true) :
    s.text x = (if (Scaled.ofFloat x).negative then "-" else "") ++ s.unsigned x := by
  obtain ⟨hnan, hinf⟩ : x.isNaN = false ∧ x.isInf = false := by
    unfold Float.isFinite Float.Model.isFinite at hx
    unfold Float.isNaN Float.Model.isNaN Float.isInf Float.Model.isInf
    cases hunpack : x.toModel.unpack with
    | notANumber | infinity => rw [hunpack] at hx; cases hx
    | zero | finite => exact ⟨rfl, rfl⟩
  unfold text unsigned
  rw [hnan, hinf]
  by_cases hzero : (Scaled.ofFloat x).significand = 0
  · simp [hzero, String.append_assoc]
  · simp [hzero]

/-- The text has characters, and all of them may stand before an exponent. -/
structure IsMantissa (s : String) : Prop where
  nonempty : s.toList ≠ []
  all : ∀ c ∈ s.toList, isMantissaChar c = true

section Mantissa

variable {s t : String}

/-- Mantissa characters after a mantissa make one. -/
theorem IsMantissa.append (hs : IsMantissa s) (ht : ∀ c ∈ t.toList, isMantissaChar c = true) :
    IsMantissa (s ++ t) := by
  constructor
  · rw [String.toList_append]
    exact List.append_ne_nil_of_left_ne_nil hs.nonempty _
  · rw [String.toList_append]
    exact List.forall_mem_append.2 ⟨hs.all, ht⟩

/-- Mantissa characters before a mantissa make one. -/
theorem IsMantissa.after (hs : ∀ c ∈ s.toList, isMantissaChar c = true) (ht : IsMantissa t) :
    IsMantissa (s ++ t) := by
  constructor
  · rw [String.toList_append]
    exact List.append_ne_nil_of_right_ne_nil _ ht.nonempty
  · rw [String.toList_append]
    exact List.forall_mem_append.2 ⟨hs, ht.all⟩

/-- A word is checked character by character. -/
theorem isMantissa_word (hs : s.toList ≠ []) (hall : s.toList.all isMantissaChar = true) :
    IsMantissa s := ⟨hs, List.all_eq_true.1 hall⟩

/-- Digits may stand in a mantissa. -/
theorem isMantissaChar_of_isDigit {cs : List Char} (h : ∀ c ∈ cs, c.isDigit = true) :
    ∀ c ∈ (String.ofList cs).toList, isMantissaChar c = true := by
  intro c hc
  rw [String.toList_ofList] at hc
  simp [isMantissaChar, h c hc]

/-- Zeros may stand in a mantissa. -/
theorem isMantissaChar_zeros (n : Nat) : ∀ c ∈ (zeros n).toList, isMantissaChar c = true := by
  apply isMantissaChar_of_isDigit
  intro c hc
  obtain rfl := List.eq_of_mem_replicate hc
  rfl

end Mantissa

/-- A decimal is a mantissa, and an exponent behind it if it has one. The positional form has no
exponent, wherever its point stands. In the scientific form the exponent follows the letter `e`,
with which the mantissa ends. -/
theorem layout_statement {d : Decimal} (hd : ∀ c ∈ d.digits, c.isDigit = true) :
    ∃ mantissa exponent : String, statement.layout d = mantissa ++ exponent ∧
      IsMantissa mantissa ∧ (exponent = "" ∨ ∃ n : Int, exponent = toString n) := by
  have hdigits := isMantissaChar_of_isDigit hd
  have htake (n : Nat) : ∀ c ∈ (String.ofList (d.digits.take n)).toList, isMantissaChar c = true :=
    isMantissaChar_of_isDigit fun c hc => hd c (List.mem_of_mem_take hc)
  have hdrop (n : Nat) : ∀ c ∈ (String.ofList (d.digits.drop n)).toList, isMantissaChar c = true :=
    isMantissaChar_of_isDigit fun c hc => hd c (List.mem_of_mem_drop hc)
  have hzero : IsMantissa "0." := isMantissa_word (by decide) rfl
  have hsuffix : IsMantissa ".0" := isMantissa_word (by decide) rfl
  have hpoint : IsMantissa "." := isMantissa_word (by decide) rfl
  have hletter : IsMantissa "e" := isMantissa_word (by decide) rfl
  unfold layout
  by_cases hpositional : statement.positional d.point = true
  · rw [if_pos hpositional]
    by_cases hsmall : d.point ≤ 0
    · rw [if_pos hsmall]
      refine ⟨_, "", (String.append_empty).symm, ?_, .inl rfl⟩
      exact (hzero.append (isMantissaChar_zeros _)).append hdigits
    · rw [if_neg hsmall]
      dsimp only
      split_ifs
      · refine ⟨_, "", (String.append_empty).symm, ?_, .inl rfl⟩
        rw [String.append_assoc]
        exact .after hdigits (.after (isMantissaChar_zeros _) hsuffix)
      · refine ⟨_, "", (String.append_empty).symm, ?_, .inl rfl⟩
        exact (IsMantissa.after (htake _) hpoint).append (hdrop _)
  · rw [if_neg hpositional]
    refine ⟨_, _, rfl, ?_, .inr ⟨_, rfl⟩⟩
    have hleading : (if d.point - 1 < 0 then "" else statement.exponentSign) = "" := by
      split_ifs <;> rfl
    have hfraction : ∀ c ∈ (if (d.digits.drop 1).isEmpty then "" else
        "." ++ String.ofList (d.digits.drop 1)).toList, isMantissaChar c = true := by
      split_ifs
      · exact fun c hc => absurd hc List.not_mem_nil
      · exact (hpoint.append (hdrop 1)).all
    rw [hleading, String.append_empty, String.append_assoc]
    exact .after (htake 1) (.after hfraction hletter)

/-- A number without its sign is a mantissa, and an exponent behind it if it has one. -/
theorem unsigned_statement (x : Float) :
    ∃ mantissa exponent : String, statement.unsigned x = mantissa ++ exponent ∧
      IsMantissa mantissa ∧ (exponent = "" ∨ ∃ n : Int, exponent = toString n) := by
  unfold unsigned
  split_ifs
  · exact ⟨"0" ++ ".0", "", rfl, isMantissa_word (by decide) rfl, .inl rfl⟩
  · exact layout_statement (Decimal.isDigit_of_mem_search _ _ _ _ _)

end FloatStyle

end QueryTree
