import QueryTree.Value.Basic

/-!
# Sorting values of one kind

The comparison for sorting puts NULL first and leaves values of different kinds level, so it is no
order on all values. On values of one kind, NULL among them, it is: there it compares the values
as members of a type that has an order (`Value.sortCompare_eq_compare`). Doubles are no kind here,
since a NaN is level with every number.

The comparison of SQL has an answer for fewer pairs, and for these it does not matter which side
comes first, doubles included (`Value.sqlCompare?_swap`). Doubles other than a NaN have a rank, by
which they are compared (`Binary64.compare?_eq`).
-/

namespace QueryTree

open Std

/-! ### Orders of the calendar -/

instance : TransOrd Date := inferInstanceAs (TransCmp (compareOn Date.day))

instance : TransOrd Time :=
  inferInstanceAs (TransCmp (compareLex (compareOn Time.second) (compareOn Time.nanosecond)))

instance : TransOrd DateTime :=
  inferInstanceAs (TransCmp (compareLex (compareOn DateTime.date) (compareOn DateTime.time)))

namespace Value

/-- Byte strings are compared as lists. -/
theorem compareBytes_eq_compare (as bs : List UInt8) : compareBytes as bs = compare as bs := by
  induction as generalizing bs with
  | nil => cases bs <;> rfl
  | cons a as ih =>
    cases bs with
    | nil => rfl
    | cons b bs => rw [compareBytes, ih, List.compare_cons_cons]

/-! ### Kinds -/

/-- The kinds of values on which SQL has a total order. -/
inductive Kind where
  | bool | int | text | bytes | date | time | dateTime
deriving DecidableEq, Repr

/-- The values of a kind, as a type of their own. -/
abbrev Kind.Carrier : Kind → Type
  | .bool => Bool
  | .int => Int64
  | .text => String
  | .bytes => List UInt8
  | .date => Date
  | .time => Time
  | .dateTime => DateTime

instance : (k : Kind) → Ord k.Carrier
  | .bool => inferInstanceAs (Ord Bool)
  | .int => inferInstanceAs (Ord Int64)
  | .text => inferInstanceAs (Ord String)
  | .bytes => inferInstanceAs (Ord (List UInt8))
  | .date => inferInstanceAs (Ord Date)
  | .time => inferInstanceAs (Ord Time)
  | .dateTime => inferInstanceAs (Ord DateTime)

instance : (k : Kind) → TransOrd k.Carrier
  | .bool => inferInstanceAs (TransOrd Bool)
  | .int => inferInstanceAs (TransOrd Int64)
  | .text => inferInstanceAs (TransOrd String)
  | .bytes => inferInstanceAs (TransOrd (List UInt8))
  | .date => inferInstanceAs (TransOrd Date)
  | .time => inferInstanceAs (TransOrd Time)
  | .dateTime => inferInstanceAs (TransOrd DateTime)

/-- A member of a kind as a value, and NULL for none. -/
def Kind.value : (k : Kind) → Option k.Carrier → Value
  | _, none => .null
  | .bool, some b => .bool b
  | .int, some n => .int n
  | .text, some s => .text s
  | .bytes, some data => .bytes data
  | .date, some d => .date d
  | .time, some t => .time t
  | .dateTime, some dt => .dateTime dt

/-- A value as a member of a kind. -/
def view? : (k : Kind) → Value → Option k.Carrier
  | .bool, .bool b => some b
  | .int, .int n => some n
  | .text, .text s => some s
  | .bytes, .bytes data => some data
  | .date, .date d => some d
  | .time, .time t => some t
  | .dateTime, .dateTime dt => some dt
  | _, _ => none

@[simp] theorem view?_value (k : Kind) (x : Option k.Carrier) : (k.value x).view? k = x := by
  cases k <;> cases x <;> rfl

/-- The value is NULL or of the kind. -/
def FitsKind (k : Kind) (v : Value) : Prop := ∃ x : Option k.Carrier, k.value x = v

/-- Members of a kind are sorted by their own order, and NULL comes before them. -/
theorem sortCompare_value (k : Kind) (x y : Option k.Carrier) :
    (k.value x).sortCompare (k.value y) = compare x y := by
  cases x with
  | none => cases y <;> cases k <;> rfl
  | some a =>
    cases y with
    | none => cases k <;> rfl
    | some b =>
      cases k with
      | bytes => exact compareBytes_eq_compare a b
      | bool | int | text | date | time | dateTime => rfl

/-- Values of a kind sort as the members of the kind compare, with NULL first. -/
theorem sortCompare_eq_compare {k : Kind} {a b : Value} (ha : a.FitsKind k) (hb : b.FitsKind k) :
    a.sortCompare b = compare (a.view? k) (b.view? k) := by
  obtain ⟨x, rfl⟩ := ha
  obtain ⟨y, rfl⟩ := hb
  rw [sortCompare_value, view?_value, view?_value]

end Value

/-! ### Comparing from the other side -/

namespace Binary64

open Float.Model

/-- Where a number stands among the doubles: by its sign, then by the exponent and the significand.
An infinity comes after all of its sign. -/
abbrev Rank := Int × Int × Int

/-- Compare two ranks by sign, then by exponent, then by significand. -/
def compareRank : Rank → Rank → Ordering :=
  compareLex (compareOn (·.1)) (compareLex (compareOn (·.2.1)) (compareOn (·.2.2)))

instance : TransCmp compareRank :=
  inferInstanceAs (TransCmp (compareLex (compareOn fun a : Rank => a.1)
    (compareLex (compareOn fun a => a.2.1) (compareOn fun a => a.2.2))))

/-- A NaN has no rank. -/
def unpackedRank? : UnpackedFloat → Option Rank
  | .notANumber => none
  | .infinity .negative => some (-2, 0, 0)
  | .finite .negative m e _ => some (-1, -e, -m)
  | .zero _ => some (0, 0, 0)
  | .finite .positive m e _ => some (1, e, m)
  | .infinity .positive => some (2, 0, 0)

/-- The rank of a double. -/
def rank? (x : Float) : Option Rank := unpackedRank? x.toModel.unpack

theorem compare_neg_neg (a b : Int) : compare (-a) (-b) = (compare a b).swap := by
  have hflip : compare (-a) (-b) = compare b a := by
    simp only [compare, compareOfLessAndEq, Int.neg_lt_neg_iff, Int.neg_inj, eq_comm]
  rw [hflip]
  exact OrientedOrd.eq_swap

theorem compare_natCast (a b : Nat) : compare (a : Int) b = compare a b := by
  simp only [compare, compareOfLessAndEq, Int.ofNat_lt, Int.ofNat_inj]

/-- Doubles are compared by their ranks. The two zeros have the same rank, and what is not a number
has none, so it compares with nothing. -/
theorem compare_unpacked_eq (x y : UnpackedFloat) :
    x.compare y = (unpackedRank? x).bind fun a => (unpackedRank? y).map (compareRank a) := by
  cases x with
  | notANumber => cases y <;> rfl
  | infinity s =>
    cases y with
    | infinity s' => cases s <;> cases s' <;> rfl
    | notANumber => cases s <;> rfl
    | zero s' => cases s <;> rfl
    | finite s' m e h => cases s <;> cases s' <;> rfl
  | zero s =>
    cases y with
    | infinity s' => cases s' <;> rfl
    | notANumber => rfl
    | zero s' => rfl
    | finite s' m e h => cases s' <;> rfl
  | finite s m e h =>
    cases y with
    | infinity s' => cases s <;> cases s' <;> rfl
    | notANumber => cases s <;> rfl
    | zero s' => cases s <;> rfl
    | finite s' m' e' h' =>
      cases s <;> cases s'
      case negative.negative =>
        have hswap : (compare (-e) (-e')).then (compare (-(m : Int)) (-m')) =
            ((compare e e').then (compare m m')).swap := by
          rw [compare_neg_neg, compare_neg_neg, compare_natCast, Ordering.swap_then]
        exact congrArg some hswap.symm
      case negative.positive => rfl
      case positive.negative => rfl
      case positive.positive =>
        have hcast : (compare e e').then (compare (m : Int) m') =
            (compare e e').then (compare m m') := by rw [compare_natCast]
        exact congrArg some hcast.symm

/-- The comparison of doubles is reversed from the other side. -/
theorem compare_unpacked_swap (x y : UnpackedFloat) :
    y.compare x = (x.compare y).map Ordering.swap := by
  rw [compare_unpacked_eq, compare_unpacked_eq]
  cases unpackedRank? x with
  | none => cases unpackedRank? y <;> rfl
  | some a =>
    cases unpackedRank? y with
    | none => rfl
    | some b => exact congrArg some OrientedCmp.eq_swap

/-- Doubles are equal if they compare so. -/
theorem beq_iff_compare_unpacked {a b : Float} :
    (a == b) = true ↔ a.toModel.unpack.compare b.toModel.unpack = some .eq := by
  show (a.toModel.unpack.compare b.toModel.unpack == some .eq) = true ↔ _
  exact beq_iff_eq

/-- The partial comparison is that of the unpacked doubles. -/
theorem compare?_eq_unpacked (a b : Float) :
    compare? a b = a.toModel.unpack.compare b.toModel.unpack := by
  have hlt : ∀ a b : Float, a < b ↔ a.toModel.unpack.compare b.toModel.unpack = some .lt :=
    fun a b => (decide_eq_true_iff (p := a.toModel < b.toModel)).trans beq_iff_eq
  simp only [compare?, hlt, beq_iff_compare_unpacked,
    compare_unpacked_swap a.toModel.unpack b.toModel.unpack]
  cases a.toModel.unpack.compare b.toModel.unpack with
  | none => rfl
  | some o => cases o <;> rfl

/-- Doubles are compared by their ranks. -/
theorem compare?_eq (a b : Float) :
    compare? a b = (rank? a).bind fun x => (rank? b).map (compareRank x) := by
  rw [compare?_eq_unpacked, compare_unpacked_eq]
  rfl

/-- It is reversed from the other side. -/
theorem compare?_swap (a b : Float) : compare? b a = (compare? a b).map Ordering.swap := by
  rw [compare?_eq_unpacked, compare?_eq_unpacked, compare_unpacked_swap]

end Binary64

/-- From the other side the comparison of SQL has the opposite answer, where it has one. -/
theorem Value.sqlCompare?_swap (v w : Value) :
    w.sqlCompare? v = (v.sqlCompare? w).map Ordering.swap := by
  cases v <;> cases w <;> simp only [sqlCompare?, Option.map_some, Option.map_none]
  case int.float | float.int | float.float => exact Binary64.compare?_swap _ _
  case bytes.bytes =>
    rw [compareBytes_eq_compare, compareBytes_eq_compare]
    exact congrArg some OrientedOrd.eq_swap
  all_goals exact congrArg some OrientedOrd.eq_swap

end QueryTree
