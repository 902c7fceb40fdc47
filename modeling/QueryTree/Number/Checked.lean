/-!
# Checked 64-bit arithmetic

Signed 64-bit integers are computed exactly over `Int` and brought back by `ofInt?`, which answers
only when the exact result has a 64-bit representation. Every operation below is one exact
operation followed by that check, so "it overflowed" and "the exact value does not fit" are the
same event; the remainder is the one operation that also asks for its quotient to fit.
-/

namespace QueryTree.Checked

/-- The 64-bit integer equal to `n`, when there is one. -/
def ofInt? (n : Int) : Option Int64 :=
  if Int64.minValue.toInt ≤ n ∧ n ≤ Int64.maxValue.toInt then some (Int64.ofInt n) else none

/-- The sum, if it has 64 bits. -/
def add? (a b : Int64) : Option Int64 := ofInt? (a.toInt + b.toInt)

/-- The difference, if it has 64 bits. -/
def sub? (a b : Int64) : Option Int64 := ofInt? (a.toInt - b.toInt)

/-- The product, if it has 64 bits. -/
def mul? (a b : Int64) : Option Int64 := ofInt? (a.toInt * b.toInt)

/-- The quotient, rounded toward zero. The divisor is taken to be nonzero. -/
def div? (a b : Int64) : Option Int64 := ofInt? (a.toInt.tdiv b.toInt)

/-- The remainder of `div?`, with the sign of the dividend. It exists only when the quotient
does, so the least integer has no remainder by `-1`. -/
def rem? (a b : Int64) : Option Int64 :=
  (div? a b).bind fun _ => ofInt? (a.toInt.tmod b.toInt)

/-- The negation, if it has 64 bits. -/
def neg? (a : Int64) : Option Int64 := ofInt? (-a.toInt)

/-- The absolute value, if it has 64 bits. -/
def abs? (a : Int64) : Option Int64 := ofInt? a.toInt.natAbs

end QueryTree.Checked
