import PersistedDocuments.Decimal.Basic
import PersistedDocuments.GraphQL.BlockString

/-!
# Tokens

The words of an executable document. Numbers and strings are tokens with their values, so that two
spellings of one string are the same token; a block string that stands for no text is a torn one,
which is found like any other and breaks the reader only in the place of a value. `Token.read?`
takes one token from the front of a text, and `Token.read?_eq_some` says that nothing of the text is
lost.
-/

namespace PersistedDocuments.GraphQL

inductive Punctuator where
  | openParen
  | closeParen
  | openBracket
  | closeBracket
  | openBrace
  | closeBrace
  | bang
  | dollar
  | colon
  | equals
  | atSign
  | pipe
  | ampersand
  | spread
  deriving DecidableEq, Repr

inductive Token where
  | punctuator (symbol : Punctuator)
  | name (text : String)
  | int (value : Int)
  | float (value : Float)
  | string (value : String)
  | torn
  deriving DecidableEq

/-- The punctuator that consists of one character. -/
def Punctuator.ofChar? : Char → Option Punctuator
  | '(' => some .openParen
  | ')' => some .closeParen
  | '[' => some .openBracket
  | ']' => some .closeBracket
  | '{' => some .openBrace
  | '}' => some .closeBrace
  | '!' => some .bang
  | '$' => some .dollar
  | ':' => some .colon
  | '=' => some .equals
  | '@' => some .atSign
  | '|' => some .pipe
  | '&' => some .ampersand
  | _ => none

namespace Number

/-- A character that ends a number; every other one belongs to it. -/
def isEnd (c : Char) : Bool :=
  c = ' ' || c = ',' || c = '\n' || c = '\r' || c = '\t' || c = '#' ||
    (Punctuator.ofChar? c).isSome

/-- A run of decimal digits at the front of a text, and the text behind it. -/
def digits (cs : List Char) : List Char × List Char :=
  (cs.takeWhile Char.isDigit, cs.dropWhile Char.isDigit)

/-- A whole number does not begin with a zero unless it is zero. -/
def whole? (cs : List Char) : Option (List Char × List Char) :=
  match digits cs with
  | ([], _) => none
  | ('0' :: _ :: _, _) => none
  | found => some found

/-- The digits behind a point, of which there must be one. -/
def fraction? : List Char → Option (List Char × List Char)
  | '.' :: cs =>
    match digits cs with
    | ([], _) => none
    | found => some found
  | cs => some ([], cs)

/-- The digits of an exponent, of which there must be one. -/
def exponentDigits? (negative : Bool) (cs : List Char) : Option Int :=
  match digits cs with
  | (ds@(_ :: _), []) =>
    let n : Int := Decimal.ofDigitChars ds
    some (if negative then -n else n)
  | _ => none

/-- The exponent at the end of a number. One without a sign begins with a digit from 1 to 8. -/
def exponent? : List Char → Option Int
  | [] => some 0
  | e :: cs =>
    if e = 'e' || e = 'E' then
      match cs with
      | '+' :: cs => exponentDigits? false cs
      | '-' :: cs => exponentDigits? true cs
      | c :: cs => if '1' ≤ c && c ≤ '8' then exponentDigits? false (c :: cs) else none
      | [] => none
    else none

/-- The sign of a number and the text behind it. -/
def sign : List Char → Bool × List Char
  | '-' :: cs => (true, cs)
  | cs => (false, cs)

/-- A number with a point or an exponent. -/
def float? (cs : List Char) : Option Float := do
  let (negative, cs) := sign cs
  let (whole, cs) ← whole? cs
  let (fraction, cs) ← fraction? cs
  let exponent ← exponent? cs
  let magnitude : Decimal :=
    ⟨Decimal.ofDigitChars (whole ++ fraction), exponent - fraction.length⟩
  return if negative then -magnitude.toFloat else magnitude.toFloat

/-- Positive integers from here on do not fit 64 bits. -/
def intLimit : Nat := UInt64.size / 2

/-- A number without point and exponent, of at most 64 bits with its sign. -/
def int? (cs : List Char) : Option Int := do
  let (negative, cs) := sign cs
  let (whole, cs) ← whole? cs
  guard cs.isEmpty
  let n : Int := Decimal.ofDigitChars whole
  let n := if negative then -n else n
  guard (-intLimit ≤ n ∧ n < intLimit)
  return n

/-- The token that a number's text stands for. -/
def token? (cs : List Char) : Option Token :=
  if cs.any fun c => c = '.' || c = 'e' || c = 'E' then (float? cs).map .float
  else (int? cs).map .int

end Number

def isNameStart (c : Char) : Bool := c.isAlpha || c = '_'

def isNamePart (c : Char) : Bool := c.isAlphanum || c = '_'

/-- A token at the front of a text: the token, its own text, and the text behind it. -/
abbrev Token.Reading := Token × List Char × List Char

namespace Token

/-- The token that a block string with the given body is. -/
def ofBlock (body : List Char) : Token :=
  match BlockString.decode? body with
  | some value => .string (String.ofList value)
  | none => .torn

/-- The string at the front of a text, behind the first quote. -/
def readString? (cs : List Char) : Option Reading :=
  match cs with
  | '"' :: '"' :: cs => do
    let (body, rest) ← BlockString.body? false cs
    let text := BlockString.fence ++ body ++ BlockString.fence
    return (ofBlock body, text, rest)
  | cs => do
    let (body, rest) ← QuotedString.body? cs
    let value ← QuotedString.decode body
    return (.string (String.ofList value), '"' :: body ++ ['"'], rest)

/-- The token at the front of a text that begins with no ignored character. -/
def read? : List Char → Option Reading
  | [] => none
  | '.' :: '.' :: '.' :: cs => some (.punctuator .spread, ['.', '.', '.'], cs)
  | c :: cs =>
    if let some symbol := Punctuator.ofChar? c then some (.punctuator symbol, [c], cs)
    else if isNameStart c then
      let text := c :: cs.takeWhile isNamePart
      some (.name (String.ofList text), text, cs.dropWhile isNamePart)
    else if c = '-' || c.isDigit then
      let text := c :: cs.takeWhile fun c => !Number.isEnd c
      (Number.token? text).map fun token => (token, text, cs.dropWhile fun c => !Number.isEnd c)
    else if c = '"' then readString? cs
    else none

theorem readString?_eq_some {cs text rest : List Char} {token : Token}
    (h : readString? cs = some (token, text, rest)) : '"' :: cs = text ++ rest := by
  unfold readString? at h
  split at h
  · next cs =>
    obtain ⟨⟨body, outer⟩, found, same⟩ := Option.bind_eq_some_iff.1 h
    simp only [Option.pure_def, Option.some.injEq, Prod.mk.injEq] at same
    obtain ⟨_, rfl, rfl⟩ := same
    simp [BlockString.body?_eq_some found, BlockString.fence]
  · obtain ⟨⟨body, outer⟩, found, same⟩ := Option.bind_eq_some_iff.1 h
    obtain ⟨value, _, same⟩ := Option.bind_eq_some_iff.1 same
    simp only [Option.pure_def, Option.some.injEq, Prod.mk.injEq] at same
    obtain ⟨_, rfl, rfl⟩ := same
    simp [QuotedString.body?_eq_some found]

/-- A token's own text and what is behind it are the whole text. -/
theorem read?_eq_some {cs text rest : List Char} {token : Token}
    (h : read? cs = some (token, text, rest)) : cs = text ++ rest := by
  unfold read? at h
  split at h
  · simp at h
  · simp only [Option.some.injEq, Prod.mk.injEq] at h
    obtain ⟨_, rfl, rfl⟩ := h
    rfl
  · split at h
    · simp only [Option.some.injEq, Prod.mk.injEq] at h
      obtain ⟨_, rfl, rfl⟩ := h
      rfl
    · split at h
      · simp only [Option.some.injEq, Prod.mk.injEq] at h
        obtain ⟨_, rfl, rfl⟩ := h
        simp
      · split at h
        · obtain ⟨_, _, same⟩ := Option.map_eq_some_iff.1 h
          simp only [Prod.mk.injEq] at same
          obtain ⟨_, rfl, rfl⟩ := same
          simp
        · split at h
          · next quote =>
            rw [quote]
            exact readString?_eq_some h
          · simp at h

/-- A token takes at least one character. -/
theorem length_rest_lt {cs text rest : List Char} {token : Token}
    (h : read? cs = some (token, text, rest)) : rest.length < cs.length := by
  have whole := read?_eq_some h
  have nonempty : text ≠ [] := by
    rintro rfl
    revert h
    unfold read?
    split
    · simp
    · simp
    · split
      · simp
      · split
        · simp
        · split
          · simp
          · split
            · intro found
              have := readString?_eq_some found
              simp only [List.nil_append] at this whole
              unfold readString? at found
              split at found
              · obtain ⟨⟨body, outer⟩, _, same⟩ := Option.bind_eq_some_iff.1 found
                simp [BlockString.fence] at same
              · obtain ⟨⟨body, outer⟩, _, same⟩ := Option.bind_eq_some_iff.1 found
                obtain ⟨value, _, same⟩ := Option.bind_eq_some_iff.1 same
                simp at same
            · simp
  rw [whole, List.length_append]
  have := List.length_pos_iff.2 nonempty
  omega

end Token

end PersistedDocuments.GraphQL
