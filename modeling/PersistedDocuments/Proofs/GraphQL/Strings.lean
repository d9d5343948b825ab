import PersistedDocuments.GraphQL.Printer
import PersistedDocuments.GraphQL.Token
import PersistedDocuments.Proofs.Decimal.Digits

/-!
# Printed strings are read

Whatever a string holds, its printed form ends where the printer ends it and reads as some string:
`reread` tells which. A string on one line reads as itself if all its characters are written as they
are or with a letter behind a backslash.
-/

namespace PersistedDocuments.GraphQL

open Decimal

namespace QuotedString

/-! ## How a character is written -/

/-- The three ways in which a character is written. -/
inductive Spelling (c : Char) : List Char → Prop
  | letter {letter} (means : unescape? letter = some c) (notCode : letter ≠ 'u')
      (notFeed : letter ≠ '\n') : Spelling c ['\\', letter]
  | plain (notQuote : c ≠ '"') (notBackslash : c ≠ '\\') (notFeed : c ≠ '\n') : Spelling c [c]
  | code (hidden : isPlain c = false) : Spelling c ('\\' :: 'u' :: fourDigits c.toNat)

theorem spelling_encodeChar (c : Char) : Spelling c (encodeChar c) := by
  unfold encodeChar
  split
  · exact .letter (by decide) (by decide) (by decide)
  · exact .letter (by decide) (by decide) (by decide)
  · exact .letter (by decide) (by decide) (by decide)
  · exact .letter (by decide) (by decide) (by decide)
  · exact .letter (by decide) (by decide) (by decide)
  · next notFeed notTab notQuote notBackslash =>
      split
      · exact .plain notQuote notBackslash notFeed
      · next hidden => exact .code (Bool.eq_false_iff.2 hidden)

theorem isDigit_of_mem_fourDigits {n : Nat} {c : Char} (present : c ∈ fourDigits n) :
    c.isDigit = true := by
  rcases List.mem_append.1 present with zero | digit
  · rw [List.eq_of_mem_replicate zero]
    decide
  · exact Nat.isDigit_of_mem_toDigits (by decide) (by decide) digit

/-- At least four digits are written. -/
theorem fourDigits_eq_cons (n : Nat) : ∃ a b c d rest, fourDigits n = a :: b :: c :: d :: rest := by
  have long : 4 ≤ (fourDigits n).length := by
    rw [fourDigits, List.length_append, List.length_replicate]
    omega
  match digits : fourDigits n, long with
  | a :: b :: c :: d :: rest, _ => exact ⟨a, b, c, d, rest, rfl⟩

theorem hexDigit?_of_isDigit {c : Char} (digit : c.isDigit = true) :
    hexDigit? c = some (c.toNat - '0'.toNat) := if_pos digit

theorem toNat_of_isValidChar {n : Nat} (valid : n.isValidChar) : (Char.ofNat n).toNat = n := by
  rw [Char.ofNat, dif_pos valid]
  rfl

/-- Four decimal digits read as the code of a character, which the first digit bounds from below. -/
theorem char?_of_digits {a b c d : Char} (digits : ∀ x ∈ [a, b, c, d], x.isDigit = true) :
    ∃ char, (hexNumber? [a, b, c, d]).bind char? = some char ∧
      4096 * (a.toNat - '0'.toNat) ≤ char.toNat ∧ char.toNat < 40960 := by
  have notPlus : a ≠ '+' := ne_of_isDigit (digits a (by simp)) (by decide)
  let value (x : Char) : Nat := x.toNat - '0'.toNat
  have number : hexNumber? [a, b, c, d] =
      some (16 * (16 * (16 * value a + value b) + value c) + value d) := by
    rw [hexNumber?]
    · simp [List.mapM_cons, hexDigit?_of_isDigit, digits, value]
    · rintro rest same
      exact notPlus (List.cons.inj same).1
  have small (x : Char) (among : x ∈ [a, b, c, d]) : value x ≤ 9 := by
    have upper := (toNat_of_isDigit (digits x among)).2
    have zero : '0'.toNat = 48 := rfl
    simp only [value]
    omega
  have bounds := And.intro (small a (by simp)) (And.intro (small b (by simp))
    (And.intro (small c (by simp)) (small d (by simp))))
  have valid : (16 * (16 * (16 * value a + value b) + value c) + value d).isValidChar :=
    .inl (by omega)
  refine ⟨Char.ofNat _, by rw [number]; exact if_pos valid, ?_⟩
  rw [toNat_of_isValidChar valid]
  change 4096 * value a ≤ _ ∧ _
  omega

/-- What the printed form of a character reads as: the character itself, or, behind `\u`, the one
whose code the first four digits are, and the other digits. -/
def rereadChar (c : Char) : List Char :=
  match encodeChar c with
  | '\\' :: 'u' :: a :: b :: c :: d :: rest =>
    ((hexNumber? [a, b, c, d]).bind char?).toList ++ rest
  | _ => [c]

/-- What the printed form of a text reads as. -/
def reread (cs : List Char) : List Char := cs.flatMap rereadChar

theorem rereadChar_of_spelled {c : Char} (spelled : ∀ rest, encodeChar c ≠ '\\' :: 'u' :: rest) :
    rereadChar c = [c] := by
  unfold rereadChar
  split
  · next same => exact absurd same (spelled _)
  · rfl

theorem rereadChar_of_code {c a b d e char : Char} {rest : List Char}
    (coded : encodeChar c = '\\' :: 'u' :: a :: b :: d :: e :: rest)
    (value : (hexNumber? [a, b, d, e]).bind char? = some char) : rereadChar c = char :: rest := by
  rw [rereadChar, coded]
  change ((hexNumber? [a, b, d, e]).bind char?).toList ++ rest = char :: rest
  rw [value]
  rfl

/-! ## The end of a string on one line -/

theorem body?_plain {c : Char} (notQuote : c ≠ '"') (notBackslash : c ≠ '\\') (notFeed : c ≠ '\n')
    (cs : List Char) :
    body? (c :: cs) = (body? cs).map fun (body, rest) => (c :: body, rest) := by
  rw [body?.eq_def]
  split
  · next same => cases same
  · next same => exact absurd (List.cons.inj same).1 notQuote
  · next same => exact absurd (List.cons.inj same).1 notFeed
  · next same => exact absurd (List.cons.inj same).1 notBackslash
  · next same => cases same; rfl

theorem body?_letter {letter : Char} (notFeed : letter ≠ '\n') (cs : List Char) :
    body? ('\\' :: letter :: cs) =
      (body? cs).map fun (body, rest) => ('\\' :: letter :: body, rest) := by
  rw [body?, if_neg notFeed]

theorem body?_digits {digits : List Char} (all : ∀ c ∈ digits, c.isDigit = true) (cs : List Char) :
    body? (digits ++ cs) = (body? cs).map fun (body, rest) => (digits ++ body, rest) := by
  induction digits with
  | nil =>
      rw [List.nil_append]
      cases body? cs <;> rfl
  | cons c others ih =>
      have digit := all c List.mem_cons_self
      rw [List.cons_append, body?_plain (ne_of_isDigit digit (by decide))
        (ne_of_isDigit digit (by decide)) (ne_of_isDigit digit (by decide)),
        ih fun d later => all d (List.mem_cons_of_mem _ later)]
      cases body? cs <;> rfl

theorem body?_encodeChar (c : Char) (cs : List Char) :
    body? (encodeChar c ++ cs) =
      (body? cs).map fun (body, rest) => (encodeChar c ++ body, rest) := by
  have spelled := spelling_encodeChar c
  generalize encodeChar c = chars at spelled ⊢
  cases spelled with
  | letter means notCode notFeed => exact body?_letter notFeed cs
  | plain notQuote notBackslash notFeed => exact body?_plain notQuote notBackslash notFeed cs
  | code hidden =>
      rw [List.cons_append, List.cons_append, body?_letter (by decide),
        body?_digits (fun _ => isDigit_of_mem_fourDigits)]
      cases body? cs <;> rfl

/-- The body of a printed string ends where the printer ends it. -/
theorem body?_encode (cs rest : List Char) :
    body? (cs.flatMap encodeChar ++ '"' :: rest) = some (cs.flatMap encodeChar, rest) := by
  induction cs with
  | nil => rw [List.flatMap_nil, List.nil_append, body?]
  | cons c cs ih =>
      rw [List.flatMap_cons, List.append_assoc, body?_encodeChar, ih]
      rfl

/-! ## The value of a string on one line -/

theorem decode_plain {c : Char} (notBackslash : c ≠ '\\') (cs : List Char) :
    decode (c :: cs) = (decode cs).map (c :: ·) := by
  rw [decode.eq_def]
  split
  · next same => cases same
  · next same => exact absurd (List.cons.inj same).1 notBackslash
  · next same => exact absurd (List.cons.inj same).1 notBackslash
  · next same => exact absurd (List.cons.inj same).1 notBackslash
  · next same =>
      cases same
      cases decode cs <;> rfl

theorem decode_letter {letter c : Char} (means : unescape? letter = some c)
    (notCode : letter ≠ 'u') (cs : List Char) :
    decode ('\\' :: letter :: cs) = (decode cs).map (c :: ·) := by
  rw [decode.eq_def]
  split
  · next same => cases same
  · next same => exact absurd (List.cons.inj (List.cons.inj same).2).1 notCode
  · next same =>
      cases same
      rw [means]
      cases decode cs <;> rfl
  · next same => cases same
  · next otherwise _ same =>
      cases same
      exact (otherwise _ _ rfl rfl).elim

theorem decode_digits {digits : List Char} (all : ∀ c ∈ digits, c.isDigit = true) (cs : List Char) :
    decode (digits ++ cs) = (decode cs).map (digits ++ ·) := by
  induction digits with
  | nil =>
      rw [List.nil_append]
      cases decode cs <;> rfl
  | cons c others ih =>
      rw [List.cons_append, decode_plain (ne_of_isDigit (all c List.mem_cons_self) (by decide)),
        ih fun d later => all d (List.mem_cons_of_mem _ later)]
      cases decode cs <;> rfl

theorem decode_code {a b c d char : Char} (value : (hexNumber? [a, b, c, d]).bind char? = some char)
    (cs : List Char) :
    decode ('\\' :: 'u' :: a :: b :: c :: d :: cs) = (decode cs).map (char :: ·) := by
  rw [decode, value]
  cases decode cs <;> rfl

theorem decode_encodeChar (c : Char) (cs : List Char) :
    decode (encodeChar c ++ cs) = (decode cs).map (rereadChar c ++ ·) := by
  have spelled := spelling_encodeChar c
  generalize same : encodeChar c = chars at spelled
  cases spelled with
  | @letter letter means notCode notFeed =>
      have notCoded : ∀ rest, encodeChar c ≠ '\\' :: 'u' :: rest := by
        intro rest coded
        exact notCode (List.cons.inj (List.cons.inj (same.symm.trans coded)).2).1
      rw [rereadChar_of_spelled notCoded]
      exact decode_letter means notCode cs
  | plain notQuote notBackslash notFeed =>
      have notCoded : ∀ rest, encodeChar c ≠ '\\' :: 'u' :: rest := by
        intro rest coded
        exact notBackslash (List.cons.inj (same.symm.trans coded)).1
      rw [rereadChar_of_spelled notCoded]
      exact decode_plain notBackslash cs
  | code hidden =>
      rcases fourDigits_eq_cons c.toNat with ⟨a, b, c', d, rest, digits⟩
      have all : ∀ x ∈ [a, b, c', d] ++ rest, x.isDigit = true := by
        intro x present
        apply isDigit_of_mem_fourDigits (n := c.toNat)
        rw [digits]
        exact present
      have ⟨char, value, _⟩ :=
        char?_of_digits fun x present => all x (List.mem_append_left _ present)
      rw [rereadChar_of_code (digits ▸ same) value, digits]
      apply (decode_code value (rest ++ cs)).trans
      rw [decode_digits fun x present => all x (List.mem_append_right _ present)]
      cases decode cs <;> rfl

/-- The printed form of a text reads as `reread` says. -/
theorem decode_encode (cs : List Char) : decode (cs.flatMap encodeChar) = some (reread cs) := by
  induction cs with
  | nil => rfl
  | cons c cs ih =>
      rw [List.flatMap_cons, decode_encodeChar, ih]
      rfl

theorem rereadChar_of_isPlain {c : Char} (plain : isPlain c = true) : rereadChar c = [c] := by
  apply rereadChar_of_spelled
  intro rest same
  unfold encodeChar at same
  split at same
  all_goals simp_all

/-- A text in which no character is written by its code reads as itself. -/
theorem reread_eq_self {cs : List Char} (plain : ∀ c ∈ cs, c = '\t' ∨ c = '\r' ∨ isPlain c = true) :
    reread cs = cs := by
  induction cs with
  | nil => rfl
  | cons c cs ih =>
      have first : rereadChar c = [c] := by
        rcases plain c List.mem_cons_self with rfl | rfl | isPlain
        · rfl
        · rfl
        · exact rereadChar_of_isPlain isPlain
      rw [reread, List.flatMap_cons, first]
      exact congrArg (c :: ·) (ih fun d later => plain d (List.mem_cons_of_mem _ later))

end QuotedString

namespace BlockString

/-! ## The end of a block string -/

/-- The text between the triple quotes. -/
def blockBody (indent : Nat) (cs : List Char) : List Char :=
  '\n' :: (Text.lines cs).flatMap (encodeLine indent) ++ blanks indent

theorem encode_eq (indent : Nat) (cs : List Char) :
    encode indent cs = fence ++ blockBody indent cs ++ fence := by
  simp [encode, blockBody]

theorem body?_cons {c : Char} (notQuote : c ≠ '"') (escaped : Bool) (cs : List Char) :
    body? escaped (c :: cs) =
      (body? (c = '\\') cs).map fun (body, rest) => (c :: body, rest) := by
  rw [body?.eq_def]
  split
  · next same => exact absurd (List.cons.inj same).1 notQuote
  · next same => cases same; rfl
  · next same => cases same

/-- Fewer than three quotes do not end the string. -/
theorem body?_quote {cs : List Char} (notFence : ∀ rest, cs ≠ '"' :: '"' :: rest) (escaped : Bool) :
    body? escaped ('"' :: cs) = (body? false cs).map fun (body, rest) => ('"' :: body, rest) := by
  rw [body?.eq_def]
  split
  · next same => exact absurd (List.cons.inj same).2 (notFence _)
  · next same => cases same; rfl
  · next same => cases same

theorem body?_blanks (n : Nat) (cs : List Char) :
    body? false (blanks n ++ cs) =
      (body? false cs).map fun (body, rest) => (blanks n ++ body, rest) := by
  induction n with
  | zero => cases found : body? false cs <;> simp [blanks, found]
  | succ n ih =>
      have step := body?_cons (c := ' ') (by decide) false (blanks n ++ cs)
      rw [show blanks (n + 1) = ' ' :: blanks n from rfl, List.cons_append, step,
        show decide (' ' = '\\') = false from rfl, ih]
      cases body? false cs <;> rfl

theorem escape_cons (c : Char) (rest : List Char) :
    (∃ others, escape (c :: rest) = '\\' :: others) ∨ escape (c :: rest) = c :: escape rest := by
  rw [escape.eq_def]
  split
  · next same => cases same
  · exact .inl ⟨_, rfl⟩
  · next same => cases same; exact .inr rfl

/-- What two quotes begin after escaping they begin before. -/
theorem eq_of_escape_append {line tail rest : List Char}
    (same : escape line ++ '\n' :: tail = '"' :: '"' :: rest) :
    ∃ others, line = '"' :: '"' :: others := by
  cases line with
  | nil => cases same
  | cons c line =>
      rcases escape_cons c line with ⟨others, escaped⟩ | kept
      · rw [escaped] at same
        cases same
      · rw [kept] at same
        rcases List.cons.inj same with ⟨rfl, behind⟩
        cases line with
        | nil => cases behind
        | cons d line =>
            rcases escape_cons d line with ⟨others, escaped⟩ | keptAgain
            · rw [escaped] at behind
              cases behind
            · rw [keptAgain] at behind
              rcases List.cons.inj behind with ⟨rfl, _⟩
              exact ⟨line, rfl⟩

/-- An escaped line stands in the body up to its end. -/
theorem body?_escape (line : List Char) (escaped : Bool) (tail : List Char) :
    body? escaped (escape line ++ '\n' :: tail) =
      (body? false tail).map fun (body, rest) => (escape line ++ '\n' :: body, rest) := by
  fun_induction escape line generalizing escaped with
  | case1 =>
      rw [List.nil_append, body?_cons (by decide)]
      rfl
  | case2 rest ih =>
      change body? escaped ('\\' :: '"' :: '"' :: '"' :: (escape rest ++ '\n' :: tail)) = _
      rw [body?_cons (by decide), show decide ('\\' = '\\') = true from rfl, body?, if_pos rfl, ih]
      cases body? false tail <;> rfl
  | case3 c rest notFence ih =>
      rw [List.cons_append]
      by_cases quote : c = '"'
      · subst quote
        have few : ∀ others, escape rest ++ '\n' :: tail ≠ '"' :: '"' :: others := by
          intro others same
          rcases eq_of_escape_append same with ⟨behind, begins⟩
          exact notFence behind rfl begins
        rw [body?_quote few, ih]
        cases body? false tail <;> rfl
      · rw [body?_cons quote, ih]
        cases body? false tail <;> rfl

theorem body?_encodeLine (indent : Nat) (line tail : List Char) :
    body? false (encodeLine indent line ++ tail) =
      (body? false tail).map fun (body, rest) => (encodeLine indent line ++ body, rest) := by
  rw [encodeLine]
  split
  · exact body?_cons (by decide) false tail
  · rw [List.append_assoc, List.append_assoc, body?_blanks]
    refine (congrArg _ (body?_escape line false tail)).trans ?_
    cases body? false tail <;> simp

theorem body?_flatMap_encodeLine (indent : Nat) (lines : List (List Char)) (tail : List Char) :
    body? false (lines.flatMap (encodeLine indent) ++ tail) =
      (body? false tail).map
        fun (body, rest) => (lines.flatMap (encodeLine indent) ++ body, rest) := by
  induction lines with
  | nil => cases found : body? false tail <;> simp [found]
  | cons line lines ih =>
      rw [List.flatMap_cons, List.append_assoc, body?_encodeLine, ih]
      cases body? false tail <;> simp

/-- The body of a printed block string ends where the printer ends it. -/
theorem body?_blockBody (indent : Nat) (cs rest : List Char) :
    body? false (blockBody indent cs ++ (fence ++ rest)) = some (blockBody indent cs, rest) := by
  have ending : body? false (fence ++ rest) = some ([], rest) := rfl
  rw [blockBody, List.append_assoc, List.cons_append, body?_cons (by decide)]
  change Option.map _ (body? false _) = _
  rw [body?_flatMap_encodeLine, body?_blanks, ending]
  simp

end BlockString

/-! ## Strings as tokens -/

/-- What a string reads as when it has been printed at the given indentation, if it is not torn. -/
def rereadString? (indent : Nat) (s : String) : Option String :=
  if BlockString.suits s.toList then
    (BlockString.decode? (BlockString.blockBody indent s.toList)).map String.ofList
  else some (String.ofList (QuotedString.reread s.toList))

/-- What a string reads as; the empty text stands for a torn one. -/
def rereadString (indent : Nat) (s : String) : String := (rereadString? indent s).getD ""

/-- The token as which a printed string is found. -/
def stringToken (indent : Nat) (s : String) : Token :=
  match rereadString? indent s with
  | some text => .string text
  | none => .torn

/-- A string without line feeds in which no character is written by its code reads as itself. -/
theorem rereadString?_eq_self {s : String}
    (plain : ∀ c ∈ s.toList, c = '\t' ∨ c = '\r' ∨ QuotedString.isPlain c = true) (indent : Nat) :
    rereadString? indent s = some s := by
  have oneLine : ¬BlockString.suits s.toList = true := by
    intro suits
    have feed := List.contains_iff_mem.1 (Bool.and_eq_true_iff.1 suits).1
    rcases plain '\n' feed with same | same | isPlain
    · cases same
    · cases same
    · exact absurd isPlain (by decide)
  rw [rereadString?, if_neg oneLine, QuotedString.reread_eq_self plain, String.ofList_toList]

namespace Token

theorem encode_ne_quote {cs rest : List Char} (notQuote : rest.head? ≠ some '"') :
    ∀ others, cs.flatMap QuotedString.encodeChar ++ '"' :: rest ≠ '"' :: '"' :: others := by
  intro others same
  cases cs with
  | nil =>
      rw [List.flatMap_nil, List.nil_append] at same
      rw [(List.cons.inj same).2] at notQuote
      exact notQuote rfl
  | cons c cs =>
      rw [List.flatMap_cons, List.append_assoc] at same
      have spelled := QuotedString.spelling_encodeChar c
      generalize QuotedString.encodeChar c = chars at spelled same
      cases spelled with
      | letter => cases same
      | plain isNotQuote => exact isNotQuote (List.cons.inj same).1
      | code => cases same

/-- A printed string is read up to its end, if no quote follows it. -/
theorem readString?_stringChars (indent : Nat) (s : String) {rest : List Char}
    (notQuote : rest.head? ≠ some '"') :
    ∃ body, stringChars indent s = '"' :: body ∧
      readString? (body ++ rest) =
        some (stringToken indent s, stringChars indent s, rest) := by
  by_cases suits : BlockString.suits s.toList = true
  · refine ⟨['"', '"'] ++ BlockString.blockBody indent s.toList ++ BlockString.fence, ?_, ?_⟩
    · rw [stringChars, if_pos suits, BlockString.encode_eq]
      rfl
    · rw [stringChars, if_pos suits, stringToken, rereadString?, if_pos suits,
        BlockString.encode_eq, List.append_assoc, List.append_assoc]
      change (BlockString.body? false (BlockString.blockBody indent s.toList ++
        (BlockString.fence ++ rest))).bind _ = _
      rw [BlockString.body?_blockBody]
      change some (ofBlock _, _, rest) = _
      rw [ofBlock]
      cases BlockString.decode? (BlockString.blockBody indent s.toList) <;> rfl
  · refine ⟨s.toList.flatMap QuotedString.encodeChar ++ ['"'], ?_, ?_⟩
    · rw [stringChars, if_neg suits]
      rfl
    · rw [stringChars, if_neg suits, stringToken, rereadString?, if_neg suits, List.append_assoc]
      unfold readString?
      split
      · next same => exact absurd same (encode_ne_quote notQuote _)
      · rw [List.cons_append, List.nil_append, QuotedString.body?_encode]
        change (QuotedString.decode _).bind _ = _
        rw [QuotedString.decode_encode]
        rfl

end Token

end PersistedDocuments.GraphQL
