/-!
# Double-precision numbers as exact fractions

A finite double is `± m · 2^q`. `Scaled.ofFloat` reads the three parts off the bits, and
`Scaled.toFloat` puts them back when the significand has at most 53 bits. Comparison and the
remainder of a division are stated here: the first with "no answer" for a NaN, the second computed
on the exact fractions, where it needs no rounding.
-/

namespace QueryTree

/-- The number `± significand · 2^exponent`. -/
structure Scaled where
  negative : Bool
  significand : Nat
  exponent : Int
deriving DecidableEq, Repr

namespace Scaled

/-- The parts of a finite double; a subnormal keeps the least exponent. -/
def ofFloat (x : Float) : Scaled where
  negative := x.toBits >>> 63 == 1
  significand :=
    let fraction := (x.toBits &&& 0xfffffffffffff).toNat
    if (x.toBits >>> 52 &&& 0x7ff).toNat = 0 then fraction else fraction + (1 <<< 52)
  exponent :=
    let field := (x.toBits >>> 52 &&& 0x7ff).toNat
    if field = 0 then -1074 else (field : Int) - 1075

/-- The double equal to `s`, for a significand below `2^53` and an exponent in range. The
significand is first moved up as far as the format allows. -/
def toFloat (s : Scaled) : Float :=
  let sign : Nat := if s.negative then 1 <<< 63 else 0
  if s.significand = 0 then Float.ofBits (UInt64.ofNat sign)
  else
    let shift := min (52 - Nat.log2 s.significand) (s.exponent + 1074).toNat
    let significand := s.significand <<< shift
    let field := (s.exponent - shift + 1075).toNat
    let magnitude :=
      if significand < 1 <<< 52 then significand else (field <<< 52) + (significand - (1 <<< 52))
    Float.ofBits (UInt64.ofNat (sign + magnitude))

end Scaled

namespace Binary64

/-- The order of two doubles; a NaN is comparable with nothing, and the two zeros are equal. -/
def compare? (a b : Float) : Option Ordering :=
  if a < b then some .lt
  else if a == b then some .eq
  else if b < a then some .gt
  else none

/-- The remainder of `a / b` with the quotient rounded toward zero; it has the sign of `a`. An
infinite dividend or a zero divisor has none, and an infinite divisor leaves `a` as it is. -/
def remainder (a b : Float) : Float :=
  if a.isNaN || b.isNaN || a.isInf || b == 0.0 then 0.0 / 0.0
  else if b.isInf then a
  else
    let x := Scaled.ofFloat a
    let y := Scaled.ofFloat b
    let exponent := min x.exponent y.exponent
    let dividend := x.significand <<< (x.exponent - exponent).toNat
    let divisor := y.significand <<< (y.exponent - exponent).toNat
    Scaled.toFloat ⟨x.negative, dividend % divisor, exponent⟩

end Binary64

end QueryTree
