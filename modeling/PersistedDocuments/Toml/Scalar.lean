import PersistedDocuments.Decimal.Basic

/-!
# Numbers, dates and times in TOML

Which texts are integers, floating point numbers, dates and times.
-/

namespace PersistedDocuments.Toml.Scalar

/-- Digits in groups with an underscore between each two. -/
def isGrouped (isDigit : Char → Bool) (cs : List Char) : Bool :=
  (cs.splitOn '_').all fun group => !group.isEmpty && group.all isDigit

def isHexDigit (c : Char) : Bool := c.isDigit || ('a' ≤ c && c ≤ 'f') || ('A' ≤ c && c ≤ 'F')

/-- The number that grouped digits of a base stand for. -/
def groupedValue (base : Nat) (cs : List Char) : Nat :=
  (cs.filter (· ≠ '_')).foldl (fun n c =>
    let digit := if c.isDigit then c.toNat - '0'.toNat else c.toLower.toNat - 'a'.toNat + 10
    base * n + digit) 0

/-- Grouped decimal digits without a leading zero. -/
def isWhole (cs : List Char) : Bool :=
  isGrouped Char.isDigit cs && (cs.head? ≠ some '0' || cs.length = 1)

/-- A sign in front of a number, and the number without it. -/
def sign (cs : List Char) : Bool × List Char :=
  match cs with
  | '+' :: rest => (false, rest)
  | '-' :: rest => (true, rest)
  | _ => (false, cs)

/-- Positive integers from here on do not fit 64 bits. -/
def integerLimit : Nat := UInt64.size / 2

/-- An integer of 64 bits. -/
def isInteger (cs : List Char) : Bool :=
  match cs with
  | '0' :: 'x' :: digits => isGrouped isHexDigit digits && groupedValue 16 digits < integerLimit
  | '0' :: 'o' :: digits =>
    isGrouped (fun c => '0' ≤ c && c ≤ '7') digits && groupedValue 8 digits < integerLimit
  | '0' :: 'b' :: digits =>
    isGrouped (fun c => c = '0' || c = '1') digits && groupedValue 2 digits < integerLimit
  | _ =>
    let (negative, digits) := sign cs
    isWhole digits && groupedValue 10 digits < (if negative then integerLimit + 1 else integerLimit)

/-- The exponent of a number, behind its mark. -/
def isExponent (cs : List Char) : Bool := isGrouped Char.isDigit (sign cs).2

/-- The number with the given digits before and behind the point and the given exponent. -/
def decimal (whole fraction exponent : List Char) : Decimal :=
  let (negative, digits) := sign exponent
  let power : Int := groupedValue 10 digits
  let fraction := fraction.filter (· ≠ '_')
  ⟨groupedValue 10 (whole ++ fraction),
    (if negative then -power else power) - fraction.length⟩

/-- A number with a point or an exponent. A positive one beyond the doubles is none. -/
def isFloat (cs : List Char) : Bool :=
  let (negative, digits) := sign cs
  if digits = "inf".toList || digits = "nan".toList then true
  else
    let mantissa := digits.takeWhile fun c => c ≠ 'e' && c ≠ 'E'
    let behind := digits.dropWhile fun c => c ≠ 'e' && c ≠ 'E'
    let whole := mantissa.takeWhile (· ≠ '.')
    let fraction := mantissa.dropWhile (· ≠ '.')
    let exponentFits := behind.isEmpty || isExponent (behind.drop 1)
    let fractionFits := fraction.isEmpty || isGrouped Char.isDigit (fraction.drop 1)
    isWhole whole && fractionFits && exponentFits && !(fraction.isEmpty && behind.isEmpty) &&
      (negative || !(decimal whole (fraction.drop 1) (behind.drop 1)).toFloat.isInf)

/-- A number of exactly so many digits that lies between two bounds. -/
def isField (digits low high : Nat) (cs : List Char) : Bool :=
  let n := Decimal.ofDigitChars cs
  cs.length = digits && cs.all Char.isDigit && low ≤ n && n ≤ high

def daysIn (year month : Nat) : Nat :=
  if month = 2 then
    if year % 4 = 0 && (year % 100 ≠ 0 || year % 400 = 0) then 29 else 28
  else if month = 4 || month = 6 || month = 9 || month = 11 then 30
  else 31

def isDate (cs : List Char) : Bool :=
  match cs.splitOn '-' with
  | [year, month, day] =>
    isField 4 0 9999 year && isField 2 1 12 month &&
      isField 2 1 (daysIn (Decimal.ofDigitChars year) (Decimal.ofDigitChars month)) day
  | _ => false

def isTime (cs : List Char) : Bool :=
  match cs.splitOn ':' with
  | [hour, minute, second] =>
    let whole := second.takeWhile (· ≠ '.')
    let fraction := second.dropWhile (· ≠ '.')
    isField 2 0 23 hour && isField 2 0 59 minute && isField 2 0 60 whole &&
      (fraction.isEmpty || ((fraction.drop 1).all Char.isDigit && 1 < fraction.length))
  | _ => false

/-- A time, which may be followed by its distance from universal time. -/
def isZonedTime (cs : List Char) : Bool :=
  let isZone (c : Char) : Bool := c = 'Z' || c = 'z' || c = '+' || c = '-'
  let time := cs.takeWhile fun c => !isZone c
  isTime time &&
    match cs.dropWhile fun c => !isZone c with
    | [] => true
    | zone :: rest =>
      if zone = 'Z' || zone = 'z' then rest.isEmpty
      else
        match rest.splitOn ':' with
        | [hour, minute] => isField 2 0 23 hour && isField 2 0 59 minute
        | _ => false

/-- A date, a time, or a date and a time with a letter or blank between them. -/
def isDateTime (cs : List Char) : Bool :=
  isDate cs || isTime cs ||
    (isDate (cs.take 10) &&
      match cs.drop 10 with
      | 'T' :: time | 't' :: time | ' ' :: time => isZonedTime time
      | _ => false)

def isScalar (cs : List Char) : Bool := isInteger cs || isFloat cs || isDateTime cs

/-- A character of a number, date or time. -/
def isPart (c : Char) : Bool := c.isAlphanum || c = '+' || c = '-' || c = '.' || c = ':' || c = '_'

/-- The number, date or time at the front of a text, and the text behind it. -/
def read? (cs : List Char) : Option (List Char × List Char) :=
  let text := cs.takeWhile isPart
  let rest := cs.dropWhile isPart
  match rest with
  | ' ' :: behind =>
    let long := text ++ ' ' :: behind.takeWhile isPart
    if isDate text && isDateTime long then some (long, behind.dropWhile isPart)
    else if isScalar text then some (text, rest) else none
  | _ => if isScalar text then some (text, rest) else none

end PersistedDocuments.Toml.Scalar
