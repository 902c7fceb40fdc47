import QueryTree.Number.Binary64

/-!
# Shortest decimal text of a double

A double stands for every real number that rounds to it. `Decimal.shortest` looks for a decimal in
that interval on coarser and then finer grids (one digit, two digits, …, seventeen digits), trying
the two neighbours of the exact value on each grid. The first grid with a hit decides the number of
digits, and of two hits the nearer one is taken.

The rest is a matter of style and is described by a `FloatStyle`: which of two equally near hits is
taken, where positional writing ends on either side, whether a whole number carries a fraction part,
and whether a positive exponent carries a sign.
-/

namespace QueryTree

/-- The number `0.d₁d₂… · 10^point` for the decimal digits `d₁d₂…`. -/
structure Decimal where
  digits : List Char
  point : Int
deriving DecidableEq, Repr

namespace Decimal

/-- Which of two neighbours on a grid stands for a value halfway between them. -/
inductive Tie where
  | up
  /-- The neighbour whose last digit is even. -/
  | toEven
deriving DecidableEq, Repr

/-- The upper of the neighbours `below` and `below + 1` is taken for the value halfway between. -/
def Tie.takesUpper (tie : Tie) (below : Nat) : Bool :=
  match tie with
  | .up => true
  | .toEven => below % 2 = 1

/-- The number of decimal digits of `n`; zero has one. -/
def digitCount (n : Nat) : Nat := (Nat.toDigits 10 n).length

/-- The least `p` with `num / den < 10^p`, for positive `num` and `den`. -/
def pointOf (num den : Nat) : Int :=
  if den ≤ num then digitCount (num / den)
  else 1 - (digitCount ((den + num - 1) / num - 1) : Int)

/-- The positive reals that round to one double, over a common denominator. -/
structure Interval where
  low : Nat
  value : Nat
  high : Nat
  den : Nat
  /-- Both ends belong to the interval; so it is for an even significand. -/
  closed : Bool

/-- The interval of `m · 2^q`. The gap below is half as wide when `m` is the least significand of
its binade and a smaller binade exists. -/
def Interval.ofScaled (m : Nat) (q : Int) : Interval :=
  let up := 1 <<< (q - 2).toNat
  let below := if m = 1 <<< 52 ∧ -1074 < q then 1 else 2
  { low := (4 * m - below) * up
    value := 4 * m * up
    high := (4 * m + 2) * up
    den := 1 <<< (2 - q).toNat
    closed := m % 2 = 0 }

/-- The fraction `n / d` lies in the interval scaled by `factor`. -/
def Interval.contains (i : Interval) (factor n d : Nat) : Bool :=
  if i.closed then i.low * factor ≤ n * d && n * d ≤ i.high * factor
  else i.low * factor < n * d && n * d < i.high * factor

/-- Remove zeros at the end. -/
def trim (digits : List Char) : List Char := (digits.reverse.dropWhile (· = '0')).reverse

/-- The decimal with `count` digits in the interval that is nearest to its value, if there is one;
`point` is the value's own decimal point. -/
def onGrid (tie : Tie) (i : Interval) (point : Int) (count : Nat) : Option Decimal :=
  let factor := Nat.pow 10 ((count : Int) - point).toNat
  let den := i.den * Nat.pow 10 (point - count).toNat
  let below := i.value * factor / den
  let above := below + 1
  let decimal (n : Nat) : Decimal :=
    ⟨trim (Nat.toDigits 10 n), point + digitCount n - count⟩
  match i.contains factor below den, i.contains factor above den with
  | true, true =>
    let down := i.value * factor - below * den
    let up := above * den - i.value * factor
    if up < down ∨ (up = down ∧ tie.takesUpper below) then some (decimal above)
    else some (decimal below)
  | true, false => some (decimal below)
  | false, true => some (decimal above)
  | false, false => none

/-- The first hit on the grids of `count`, `count + 1`, … digits, `tries` grids in all. -/
def search (tie : Tie) (i : Interval) (point : Int) : Nat → Nat → Decimal
  | 0, _ => ⟨['0'], 1⟩
  | tries + 1, count => (onGrid tie i point count).getD (search tie i point tries (count + 1))

/-- The shortest decimal that rounds to `m · 2^q`, for a positive significand. Seventeen digits
always suffice. -/
def shortest (tie : Tie) (m : Nat) (q : Int) : Decimal :=
  let i := Interval.ofScaled m q
  search tie i (pointOf i.value i.den) 17 1

end Decimal

/-- How a number is written. -/
structure FloatStyle where
  /-- Which of two equally near decimals of the same length is written. -/
  tie : Decimal.Tie
  /-- The least decimal point written positionally; `none` when there is no such end. -/
  least : Option Int
  /-- The greatest decimal point written positionally. -/
  greatest : Option Int
  /-- What follows the digits of a whole number written positionally. -/
  wholeSuffix : String
  /-- What stands before an exponent that is not negative. -/
  exponentSign : String

namespace FloatStyle

/-- Numbers as they are shown to a reader: always positional, and whole numbers without a fraction
part. -/
def plain : FloatStyle := ⟨.up, none, none, "", ""⟩

/-- Numbers as they stand in statements: positional from `0.0001` to below `10^16`, and a whole
number keeps `.0` so that it reads as a fraction. -/
def statement : FloatStyle := ⟨.up, some (-3), some 16, ".0", ""⟩

/-- Numbers as they stand in JSON text: positional from `0.00001` to below `10^16`, else with a sign
before every exponent; a tie goes to the even digit. -/
def json : FloatStyle := ⟨.toEven, some (-4), some 16, ".0", "+"⟩

/-- The number is written without an exponent where its point is within the bounds. -/
def positional (s : FloatStyle) (point : Int) : Bool :=
  s.least.all (· ≤ point) && s.greatest.all (point ≤ ·)

/-- Zeros to fill up places. -/
def zeros (n : Nat) : String := String.ofList (List.replicate n '0')

/-- The text of a positive decimal. -/
def layout (s : FloatStyle) (d : Decimal) : String :=
  if s.positional d.point then
    if d.point ≤ 0 then "0." ++ zeros (-d.point).toNat ++ String.ofList d.digits
    else
      let whole := d.point.toNat
      if d.digits.length ≤ whole then
        String.ofList d.digits ++ zeros (whole - d.digits.length) ++ s.wholeSuffix
      else String.ofList (d.digits.take whole) ++ "." ++ String.ofList (d.digits.drop whole)
  else
    let fraction := d.digits.drop 1
    let exponent := d.point - 1
    String.ofList (d.digits.take 1) ++
      (if fraction.isEmpty then "" else "." ++ String.ofList fraction) ++
      "e" ++ (if exponent < 0 then "" else s.exponentSign) ++ toString exponent

/-- The text of a double. -/
def text (s : FloatStyle) (x : Float) : String :=
  if x.isNaN then "NaN"
  else
    let parts := Scaled.ofFloat x
    let sign := if parts.negative then "-" else ""
    if x.isInf then sign ++ "inf"
    else if parts.significand = 0 then sign ++ "0" ++ s.wholeSuffix
    else sign ++ s.layout (Decimal.shortest s.tie parts.significand parts.exponent)

end FloatStyle

end QueryTree
