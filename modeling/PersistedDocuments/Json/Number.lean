import PersistedDocuments.Decimal.Shortest
import PersistedDocuments.Json.Problem
import PersistedDocuments.Json.Value

/-!
# Numbers in JSON

A double is written with the fewest digits that read back, at least one of them behind the point,
and with an exponent where the point is far from the digits. A double is read from as many leading
digits as fit 64 bits, scaled by a power of ten in double arithmetic.
-/

namespace PersistedDocuments.Json.Number

open Decimal (digitChars)

def intChars : Int → List Char
  | .ofNat n => digitChars n
  | .negSucc n => '-' :: digitChars (n + 1)

/-- An exponent behind its mark, with a sign even if it is positive. -/
def exponentChars : Int → List Char
  | .ofNat n => 'e' :: '+' :: digitChars n
  | .negSucc n => 'e' :: '-' :: digitChars (n + 1)

/-- A positive decimal without trailing zeros. The point stands among the digits or up to five
places in front of them, or up to sixteen places behind the first; elsewhere an exponent is written.
-/
def magnitudeChars (d : Decimal) : List Char :=
  let place := d.point
  if 0 ≤ d.exponent && place ≤ 16 then d.positional ++ ['.', '0']
  else if -5 < place && place ≤ 16 then d.positional
  else
    match digitChars d.digits with
    | [digit] => digit :: exponentChars (place - 1)
    | digit :: rest => digit :: '.' :: rest ++ exponentChars (place - 1)
    | [] => []

/-- A finite double. -/
def floatChars (x : Float) : List Char :=
  let magnitude := Decimal.shortest .toEven x
  let chars := if magnitude.digits = 0 then ['0', '.', '0'] else magnitudeChars magnitude
  if Decimal.isNegative x then '-' :: chars else chars

/-- The number of leading digits that can follow `n` within 64 bits: the number they make with it,
how many they are, and how many digits are left over. -/
def absorb (n : Nat) : List Char → Nat × Nat × Nat
  | [] => (n, 0, 0)
  | digit :: rest =>
    let next := 10 * n + (digit.toNat - '0'.toNat)
    if next < UInt64.size then
      let (value, used, left) := absorb next rest
      (value, used + 1, left)
    else (n, 0, rest.length + 1)

/-- Divides by a power of ten in steps of at most `10 ^ 308`. -/
def divide (x : Float) (exponent : Nat) : Float :=
  if exponent ≤ 308 then x / Float.ofScientific 1 false exponent
  else if x == 0.0 then x
  else divide (x / Float.ofScientific 1 false 308) (exponent - 308)
termination_by exponent

/-- The double `significand * 10 ^ exponent`, unless it is too large. -/
def scale? (significand : Nat) (exponent : Int) : Option Float :=
  let x := Float.ofScientific significand false 0
  if exponent < 0 then some (divide x exponent.natAbs)
  else if 308 < exponent then if x == 0.0 then some x else none
  else
    let scaled := x * Float.ofScientific 1 false exponent.toNat
    if scaled.isInf then none else some scaled

/-- The parts of a number's text. -/
structure Parts where
  negative : Bool
  whole : List Char
  fraction : Option (List Char)
  exponent : Option Int

/-- The value of a number: an integer if it is written as one and fits 64 bits, with a sign less
than minus zero, and a double otherwise. -/
def Parts.value? (parts : Parts) : Option Value :=
  let (significand, _, left) := absorb 0 parts.whole
  let signed (x : Float) : Value := .float (if parts.negative then -x else x)
  match parts.fraction, parts.exponent with
  | none, none =>
    if left = 0 && !parts.negative then some (.int significand)
    else if left = 0 && 0 < significand && significand ≤ UInt64.size / 2 then
      some (.int (-significand))
    else (scale? significand left).map signed
  | fraction, exponent =>
    let (significand, used, _) := absorb significand (fraction.getD [])
    (scale? significand (left - used + exponent.getD 0)).map signed

/-- A run of digits at the front of a text, and the text behind it. -/
def digits (cs : List Char) : List Char × List Char :=
  (cs.takeWhile Char.isDigit, cs.dropWhile Char.isDigit)

/-- Digits of which there must be one. -/
def digits1 (cs : List Char) : Except Problem (List Char × List Char) :=
  match digits cs, cs with
  | ([], _), [] => .error .truncated
  | ([], _), _ :: _ => .error .malformed
  | found, _ => .ok found

/-- The digits before the point, without leading zeros. -/
def whole (cs : List Char) : Except Problem (List Char × List Char) := do
  match ← digits1 cs with
  | ('0' :: _ :: _, _) => throw .malformed
  | found => return found

/-- The digits behind the point, if there is a point. -/
def fraction : List Char → Except Problem (Option (List Char) × List Char)
  | '.' :: cs => do
    let (found, rest) ← digits1 cs
    return (some found, rest)
  | cs => .ok (none, cs)

def isExponentMark (c : Char) : Bool := c = 'e' || c = 'E'

/-- The sign before an exponent's digits. -/
def exponentSign : List Char → Bool × List Char
  | '+' :: cs => (false, cs)
  | '-' :: cs => (true, cs)
  | cs => (false, cs)

/-- The exponent, if there is one. -/
def exponent : List Char → Except Problem (Option Int × List Char)
  | c :: cs =>
    if isExponentMark c then do
      let (negative, cs) := exponentSign cs
      let (found, rest) ← digits1 cs
      let n : Int := Decimal.ofDigitChars found
      return (some (if negative then -n else n), rest)
    else .ok (none, c :: cs)
  | [] => .ok (none, [])

/-- The parts of the number at the front of a text, behind its sign. -/
def parts (negative : Bool) (cs : List Char) : Except Problem (Parts × List Char) := do
  let (whole, cs) ← whole cs
  let (fraction, cs) ← fraction cs
  let (exponent, cs) ← exponent cs
  return (⟨negative, whole, fraction, exponent⟩, cs)

/-- The number at the front of a text. One that is too large breaks the grammar. -/
def decode (cs : List Char) : Except Problem (Value × List Char) := do
  let (parts, rest) ←
    match cs with
    | '-' :: cs => parts true cs
    | cs => parts false cs
  match parts.value? with
  | some value => return (value, rest)
  | none => throw .malformed

/-- The text behind a number that nobody asks for. Its size does not matter, and one that ends too
early breaks the grammar. -/
def skip (cs : List Char) : Except Problem (List Char) :=
  let found :=
    match cs with
    | '-' :: cs => parts true cs
    | cs => parts false cs
  match found with
  | .ok (_, rest) => .ok rest
  | .error _ => .error .malformed

end PersistedDocuments.Json.Number
