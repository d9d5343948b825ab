/-!
# Decimal numbers

A nonnegative decimal number is kept as its digits and a power of ten. Reading one as a double is
correctly rounded; magnitudes far outside the doubles are decided from the position of the point, so
that no huge power of ten is ever formed.
-/

namespace PersistedDocuments

/-- The number `digits * 10 ^ exponent`. -/
structure Decimal where
  digits : Nat
  exponent : Int
  deriving DecidableEq, Repr

namespace Decimal

/-- The decimal digits of a natural number, the highest first. -/
def digitChars (n : Nat) : List Char := Nat.toDigits 10 n

/-- The natural number that a run of decimal digits stands for. -/
def ofDigitChars (cs : List Char) : Nat := Nat.ofDigitChars 10 cs 0

/-- Place of the point behind the first digit: a nonzero number lies between `10 ^ (point - 1)` and
`10 ^ point`. -/
def point (d : Decimal) : Int := (digitChars d.digits).length + d.exponent

/-- The double nearest to the number, infinite from beyond the largest double on. -/
def toFloat (d : Decimal) : Float :=
  if d.digits = 0 then 0.0
  else if 310 < d.point then 1.0 / 0.0
  else if d.point < -330 then 0.0
  else Float.ofScientific d.digits (decide (d.exponent < 0)) d.exponent.natAbs

/-- Moves trailing zeros of the digits into the exponent. -/
def trimmed (d : Decimal) : Decimal :=
  if h : d.digits = 0 then ⟨0, 0⟩
  else if d.digits % 10 = 0 then trimmed ⟨d.digits / 10, d.exponent + 1⟩
  else d
termination_by d.digits
decreasing_by omega

/-- Digits and point without an exponent, and without a point if no digit stands behind it. -/
def positional (d : Decimal) : List Char :=
  let digits := digitChars d.digits
  let place := d.point
  if 0 ≤ d.exponent then digits ++ List.replicate d.exponent.toNat '0'
  else if 0 < place then digits.take place.toNat ++ '.' :: digits.drop place.toNat
  else '0' :: '.' :: List.replicate (-place).toNat '0' ++ digits

@[simp] theorem ofDigitChars_digitChars (n : Nat) : ofDigitChars (digitChars n) = n :=
  Nat.ofDigitChars_ten_toDigits

end Decimal

end PersistedDocuments
