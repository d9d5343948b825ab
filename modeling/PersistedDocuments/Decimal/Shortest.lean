import PersistedDocuments.Decimal.Basic

/-!
# Shortest decimals of a double

Among the decimals that read back as a given double, the ones with the fewest digits, and of those
the nearest. A finite double is decoded from its bits into `mantissa * 2 ^ exponent`; everything
after that is exact arithmetic on natural numbers.
-/

namespace PersistedDocuments.Decimal

/-- A positive number `mantissa * 2 ^ exponent`, and whether its lower neighbour among the doubles
is only half as far away as the upper one. -/
structure Binary where
  mantissa : Nat
  exponent : Int
  lowerHalved : Bool
  deriving Repr

/-- The number of fractions of a double: they have 52 bits. -/
def fractionSize : Nat := 1 <<< 52

/-- The place value of a double's sign bit. -/
def signBit : Nat := 1 <<< 63

/-- The double behind the bits of a finite, nonzero double, without its sign. -/
def Binary.ofBits (bits : Nat) : Binary :=
  let fraction : Nat := bits % fractionSize
  let field : Nat := bits / fractionSize % 2048
  if field = 0 then ⟨fraction, -1074, false⟩
  else ⟨fractionSize + fraction, (field : Int) - 1075, fraction = 0 && decide (1 < field)⟩

/-- The numbers that round to one double, as fractions over `scale`: those between `low` and `high`
round to `value`, the two ends only if `closed`. -/
structure Interval where
  value : Nat
  low : Nat
  high : Nat
  scale : Nat
  closed : Bool

/-- The numbers that round to the given double. -/
def Binary.interval (b : Binary) : Interval :=
  let unit := b.exponent - 2
  let factor := 1 <<< unit.toNat
  { value := 4 * b.mantissa * factor
    low := (4 * b.mantissa - if b.lowerHalved then 1 else 2) * factor
    high := (4 * b.mantissa + 2) * factor
    scale := 1 <<< (-unit).toNat
    closed := b.mantissa % 2 = 0 }

/-- Whether a number over the interval's scale lies in it. -/
def Interval.holds (i : Interval) (point : Nat) : Bool :=
  (i.low < point && point < i.high) || (i.closed && (point == i.low || point == i.high))

/-- The interval over a scale on which `10 ^ step` is a whole number, and that number. -/
def Interval.inSteps (i : Interval) (step : Int) : Interval × Nat :=
  let widen := Nat.pow 10 (-step).toNat
  ({ i with
      value := i.value * widen
      low := i.low * widen
      high := i.high * widen },
    i.scale * Nat.pow 10 step.toNat)

/-- Which of two decimals of one length is taken when the double lies exactly between them. -/
inductive Tie where
  | up
  | toEven
  deriving DecidableEq, Repr

/-- The multiple of `10 ^ step` that lies in the interval, if there is one next to the value; of two
such multiples the nearer, and of two equally near ones the one that `tie` names. -/
def Interval.onGrid? (i : Interval) (tie : Tie) (step : Int) : Option Decimal :=
  let (j, size) := i.inSteps step
  let below := j.value / size
  let rest := j.value % size
  match j.holds (below * size), j.holds ((below + 1) * size) with
  | true, false => some ⟨below, step⟩
  | false, true => some ⟨below + 1, step⟩
  | false, false => none
  | true, true =>
    let roundsUp : Bool :=
      match tie with
      | .up => size ≤ 2 * rest
      | .toEven => size < 2 * rest || (size == 2 * rest && below % 2 == 1)
    some ⟨if roundsUp then below + 1 else below, step⟩

/-- The least place of the point: the value is below `10 ^ place`, and not below a tenth of that. -/
def Interval.place (i : Interval) : Int :=
  let whole := i.value / i.scale
  if 0 < whole then (digitChars whole).length
  else
    let zeros := (List.range 400).find? fun k => i.scale ≤ i.value * Nat.pow 10 (k + 1)
    Int.negOfNat (zeros.getD 0)

/-- The shortest decimal in the interval: the grids of one, two, and up to seventeen digits are
tried in turn. -/
def Interval.shortest (i : Interval) (tie : Tie) : Decimal :=
  let place := i.place
  let found := (List.range 17).findSome? fun n => i.onGrid? tie (place - (n + 1 : Nat))
  (found.getD ⟨0, 0⟩).trimmed

/-- The shortest decimal that reads back as the magnitude of a finite double. -/
def shortest (tie : Tie) (x : Float) : Decimal :=
  let bits := x.toBits.toNat % signBit
  if bits = 0 then ⟨0, 0⟩ else (Binary.ofBits bits).interval.shortest tie

/-- A set sign bit, also that of minus zero. -/
def isNegative (x : Float) : Bool := decide (signBit ≤ x.toBits.toNat)

end PersistedDocuments.Decimal
