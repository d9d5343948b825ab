/-!
# Strings in quotes

Reading and writing a string on one line. The two forms are not inverse: a backslash before `b`
reads as U+0010, and a character outside U+0020 to U+FFFF is written by its code point in decimal
digits while four digits behind `\u` are read as hexadecimal.
-/

namespace PersistedDocuments.GraphQL.QuotedString

/-- What stands between an opening quote and the next quote that no backslash escapes, and the text
behind that. A line feed may not stand between them. -/
def body? : List Char → Option (List Char × List Char)
  | [] => none
  | '"' :: rest => some ([], rest)
  | '\n' :: _ => none
  | '\\' :: c :: rest =>
    if c = '\n' then none else (body? rest).map fun (body, rest) => ('\\' :: c :: body, rest)
  | c :: rest => (body? rest).map fun (body, rest) => (c :: body, rest)

/-- The character that a letter behind a backslash stands for. -/
def unescape? : Char → Option Char
  | '"' => some '"'
  | '\\' => some '\\'
  | '/' => some '/'
  | 'b' => some '\x10'
  | 'f' => some '\x0c'
  | 'n' => some '\n'
  | 'r' => some '\r'
  | 't' => some '\t'
  | _ => none

def hexDigit? (c : Char) : Option Nat :=
  if c.isDigit then some (c.toNat - '0'.toNat)
  else if 'a' ≤ c && c ≤ 'f' then some (c.toNat - 'a'.toNat + 10)
  else if 'A' ≤ c && c ≤ 'F' then some (c.toNat - 'A'.toNat + 10)
  else none

/-- A number in hexadecimal digits, at least one, which a plus sign may precede. -/
def hexNumber? (cs : List Char) : Option Nat :=
  let digits := match cs with
    | '+' :: rest => rest
    | _ => cs
  if digits.isEmpty then none
  else (digits.mapM hexDigit?).map fun values => values.foldl (fun n digit => 16 * n + digit) 0

/-- The character with the given code point, if it is one. -/
def char? (n : Nat) : Option Char := if n.isValidChar then some (Char.ofNat n) else none

/-- The text that the body of a string stands for, if all its escapes are valid. -/
def decode : List Char → Option (List Char)
  | [] => some []
  | '\\' :: 'u' :: a :: b :: c :: d :: rest => do
    let char ← (hexNumber? [a, b, c, d]).bind char?
    return char :: (← decode rest)
  | '\\' :: c :: rest => do
    let char ← unescape? c
    return char :: (← decode rest)
  | '\\' :: [] => none
  | c :: rest => return c :: (← decode rest)

/-- A number with zeros in front of it up to four digits. -/
def fourDigits (n : Nat) : List Char :=
  let digits := Nat.toDigits 10 n
  List.replicate (4 - digits.length) '0' ++ digits

/-- A character that is written as it is. -/
def isPlain (c : Char) : Bool := decide (0x20 ≤ c.toNat ∧ c.toNat ≤ 0xFFFF)

def encodeChar (c : Char) : List Char :=
  match c with
  | '\r' => ['\\', 'r']
  | '\n' => ['\\', 'n']
  | '\t' => ['\\', 't']
  | '"' => ['\\', '"']
  | '\\' => ['\\', '\\']
  | c => if isPlain c then [c] else '\\' :: 'u' :: fourDigits c.toNat

/-- The text in quotes. -/
def encode (cs : List Char) : List Char := '"' :: cs.flatMap encodeChar ++ ['"']

theorem body?_eq_some {cs body rest : List Char} (h : body? cs = some (body, rest)) :
    cs = body ++ '"' :: rest := by
  fun_induction body? cs generalizing body rest with
  | case1 => simp at h
  | case2 => simp_all
  | case3 => simp at h
  | case4 => simp at h
  | case5 c cs _ ih =>
    obtain ⟨⟨inner, outer⟩, found, same⟩ := Option.map_eq_some_iff.1 h
    obtain ⟨rfl, rfl⟩ := Prod.mk.injEq .. ▸ same
    simp [ih found]
  | case6 c cs _ _ _ ih =>
    obtain ⟨⟨inner, outer⟩, found, same⟩ := Option.map_eq_some_iff.1 h
    obtain ⟨rfl, rfl⟩ := Prod.mk.injEq .. ▸ same
    simp [ih found]

end PersistedDocuments.GraphQL.QuotedString
