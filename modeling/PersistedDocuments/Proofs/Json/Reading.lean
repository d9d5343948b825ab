import PersistedDocuments.Json.Decoder
import PersistedDocuments.Json.Writer
import PersistedDocuments.Proofs.Decimal.Digits

/-!
# Written JSON is read

Strings and integers are read from their written form whatever follows them, and members between
braces are read one after the other.
-/

namespace PersistedDocuments.Json

open Decimal

namespace Quoted

/-! ## Strings -/

theorem hexValue?_hexDigit {n : Nat} (small : n < 16) : hexValue? (hexDigit n) = some n := by
  have all : ∀ digit, digit < 16 → hexValue? (hexDigit digit) = some digit := by decide
  exact all n small

/-- A control character is read from its code. -/
theorem codedChar_control {c : Char} (control : isControl c = true) (rest : List Char) :
    codedChar ('0' :: '0' :: hexDigit (c.toNat / 16) :: hexDigit (c.toNat % 16) :: rest) =
      .ok (c, rest) := by
  have small : c.toNat < 32 := of_decide_eq_true control
  have code : ((0 * 16 + 0) * 16 + c.toNat / 16) * 16 + c.toNat % 16 = c.toNat := by omega
  have notLow : isLowSurrogate c.toNat = false := by
    rw [isLowSurrogate, decide_eq_false (by omega), Bool.false_and]
  have notHigh : isHighSurrogate c.toNat = false := by
    rw [isHighSurrogate, decide_eq_false (by omega), Bool.false_and]
  have zero : hexValue? '0' = some 0 := rfl
  have read : unit ('0' :: '0' :: hexDigit (c.toNat / 16) :: hexDigit (c.toNat % 16) :: rest) =
      .ok (c.toNat, rest) := by
    rw [unit, zero, hexValue?_hexDigit (by omega), hexValue?_hexDigit (by omega)]
    exact congrArg (fun n => Except.ok (n, rest)) code
  rw [codedChar, read]
  simp only [bind, Except.bind, notLow, notHigh, Char.ofNat_toNat]
  rfl

theorem decode_letter {letter c : Char} (means : unescape? letter = some c) (notCode : letter ≠ 'u')
    (cs : List Char) :
    decode ('\\' :: letter :: cs) = (decode cs).map fun (text, rest) => (c :: text, rest) := by
  rw [decode.eq_def]
  split
  · next same => cases same
  · next same => cases same
  · next same => cases same
  · next same => exact absurd (List.cons.inj (List.cons.inj same).2).1 notCode
  · next same =>
      cases same
      rw [means]
      cases decode cs <;> rfl
  · next otherwise same =>
      cases same
      exact (otherwise _ _ rfl rfl).elim

theorem decode_code {coded rest : List Char} {c : Char} (code : codedChar coded = .ok (c, rest)) :
    decode ('\\' :: 'u' :: coded) = (decode rest).map fun (text, rest) => (c :: text, rest) := by
  rw [decode]
  split
  · next failed =>
      rw [code] at failed
      cases failed
  · next found =>
      rw [code] at found
      cases found
      cases decode rest <;> rfl

theorem decode_plain {c : Char} (notQuote : c ≠ '"') (notBackslash : c ≠ '\\')
    (plain : isControl c = false) (cs : List Char) :
    decode (c :: cs) = (decode cs).map fun (text, rest) => (c :: text, rest) := by
  rw [decode.eq_def]
  split
  · next same => cases same
  · next same => exact absurd (List.cons.inj same).1 notQuote
  · next same => exact absurd (List.cons.inj same).1 notBackslash
  · next same => exact absurd (List.cons.inj same).1 notBackslash
  · next same => exact absurd (List.cons.inj same).1 notBackslash
  · next same =>
      cases same
      rw [if_neg (Bool.eq_false_iff.1 plain)]
      cases decode cs <;> rfl

theorem decode_encodeChar (c : Char) (cs : List Char) :
    decode (encodeChar c ++ cs) = (decode cs).map fun (text, rest) => (c :: text, rest) := by
  unfold encodeChar
  split
  · exact decode_letter (by decide) (by decide) cs
  · exact decode_letter (by decide) (by decide) cs
  · exact decode_letter (by decide) (by decide) cs
  · exact decode_letter (by decide) (by decide) cs
  · exact decode_letter (by decide) (by decide) cs
  · exact decode_letter (by decide) (by decide) cs
  · exact decode_letter (by decide) (by decide) cs
  · next notQuote notBackslash _ _ _ _ _ =>
      split
      · next control => exact decode_code (codedChar_control control cs)
      · next plain => exact decode_plain notQuote notBackslash (Bool.eq_false_iff.2 plain) cs

/-- A written string is read up to its end. -/
theorem decode_encode (cs rest : List Char) :
    decode (cs.flatMap encodeChar ++ '"' :: rest) = .ok (cs, rest) := by
  induction cs with
  | nil => rw [List.flatMap_nil, List.nil_append, decode]
  | cons c cs ih =>
      rw [List.flatMap_cons, List.append_assoc, decode_encodeChar, ih]
      rfl

end Quoted

namespace Number

/-! ## Integers -/

/-- The text is empty or goes on with a character that ends a number. -/
def Ends (cs : List Char) : Prop :=
  ∀ c, cs.head? = some c → c.isDigit = false ∧ c ≠ '.' ∧ isExponentMark c = false

theorem le_ofDigitChars (cs : List Char) (n : Nat) : n ≤ Nat.ofDigitChars 10 cs n := by
  rw [Nat.ofDigitChars_eq_ofDigitChars_zero]
  exact Nat.le_trans (Nat.le_mul_of_pos_left n (Nat.pow_pos (by decide))) (Nat.le_add_right _ _)

/-- Digits of a number that fits 64 bits are all absorbed. -/
theorem absorb_of_lt {cs : List Char} {n : Nat} (fits : Nat.ofDigitChars 10 cs n < UInt64.size) :
    absorb n cs = (Nat.ofDigitChars 10 cs n, cs.length, 0) := by
  induction cs generalizing n with
  | nil => rfl
  | cons c cs ih =>
      rw [Nat.ofDigitChars_cons] at fits ⊢
      rw [absorb, if_pos (Nat.lt_of_le_of_lt (le_ofDigitChars cs _) fits), ih fits]
      rfl

theorem digits1_digitChars (n : Nat) {rest : List Char} (ends : Ends rest) :
    digits1 (digitChars n ++ rest) = .ok (digitChars n, rest) := by
  have ⟨taken, left⟩ := takeWhile_append_of_stops rest
    (fun _ => isDigit_of_mem_digitChars (n := n)) fun c head => (ends c head).1
  have found : digits (digitChars n ++ rest) = (digitChars n, rest) := by rw [digits, taken, left]
  have nonempty : digitChars n ≠ [] := Nat.toDigits_ne_nil
  rw [digits1.eq_def, found]
  split
  · next same _ => exact absurd (Prod.mk.inj same).1 nonempty
  · next same _ => exact absurd (Prod.mk.inj same).1 nonempty
  · rfl

theorem whole_digitChars (n : Nat) {rest : List Char} (ends : Ends rest) :
    whole (digitChars n ++ rest) = .ok (digitChars n, rest) := by
  rcases head_digitChars n with ⟨first, others, spelled, zero⟩
  rw [whole, digits1_digitChars n ends]
  simp only [bind, Except.bind, spelled]
  split
  · next same =>
      cases same
      cases zero rfl
  · rfl

theorem parts_digitChars (n : Nat) {rest : List Char} (ends : Ends rest) :
    parts false (digitChars n ++ rest) = .ok (⟨false, digitChars n, none, none⟩, rest) := by
  have noFraction : fraction rest = .ok (none, rest) := by
    cases rest with
    | nil => rfl
    | cons c cs =>
        rw [fraction]
        rintro _ same
        exact (ends c rfl).2.1 (List.cons.inj same).1
  have noExponent : exponent rest = .ok (none, rest) := by
    cases rest with
    | nil => rfl
    | cons c cs => rw [exponent, if_neg (Bool.eq_false_iff.1 (ends c rfl).2.2)]
  rw [parts, whole_digitChars n ends]
  simp only [bind, Except.bind, noFraction, noExponent]
  rfl

/-- A natural number of 64 bits is read as it is. -/
theorem decode_digitChars {n : Nat} (fits : n < UInt64.size) {rest : List Char} (ends : Ends rest) :
    decode (digitChars n ++ rest) = .ok (.int n, rest) := by
  rcases head_digitChars n with ⟨first, others, spelled, _⟩
  have digit : first.isDigit = true := isDigit_of_mem_digitChars (spelled ▸ List.mem_cons_self)
  have value : Nat.ofDigitChars 10 (digitChars n) 0 = n := Nat.ofDigitChars_ten_toDigits
  have small : Nat.ofDigitChars 10 (digitChars n) 0 < UInt64.size := by rwa [value]
  have absorbed := absorb_of_lt small
  rw [value] at absorbed
  have read := parts_digitChars n ends
  rw [decode.eq_def]
  split
  · next same =>
      rw [spelled] at same
      exact absurd (List.cons.inj same).1 (ne_of_isDigit digit (by decide))
  · simp only [bind, Except.bind, read, Parts.value?, absorbed]
    rfl

end Number

namespace Decoder

/-! ## Steps of a decoder -/

variable {α β σ : Type} {cs rest : List Char} {result : α}

theorem bind_eq {first : Decoder α} (read : first cs = .ok (result, rest)) (next : α → Decoder β) :
    (first >>= next) cs = next result rest := by
  change Except.bind (first cs) _ = _
  rw [read]
  rfl

theorem peek_cons {c : Char} (word : isSpace c = false) (cs : List Char) :
    peek (c :: cs) = .ok (some c, c :: cs) := by
  rw [peek, List.dropWhile_cons_of_neg (Bool.eq_false_iff.1 word)]
  rfl

theorem drop_cons (c : Char) (cs : List Char) : drop (c :: cs) = .ok ((), cs) := rfl

theorem symbol_cons {c : Char} (word : isSpace c = false) (cs : List Char) :
    symbol c (c :: cs) = .ok ((), cs) := by
  rw [symbol, bind_eq (peek_cons word cs)]
  exact congrFun (if_pos rfl) _

theorem string_encode (s : String) (rest : List Char) :
    string (s.toList.flatMap Quoted.encodeChar ++ '"' :: rest) = .ok (s, rest) := by
  rw [string, Quoted.decode_encode]
  exact congrArg (fun text => Except.ok (text, rest)) String.ofList_toList

/-- The written form of a string begins with a quote. -/
theorem encode_append (s : String) (rest : List Char) :
    Quoted.encode s.toList ++ rest =
      '"' :: (s.toList.flatMap Quoted.encodeChar ++ '"' :: rest) := by
  simp [Quoted.encode]

theorem name_encode (s : String) (rest : List Char) :
    name (Quoted.encode s.toList ++ rest) = .ok (s, rest) := by
  rw [encode_append, name, bind_eq (symbol_cons (by decide) _)]
  exact string_encode s rest

theorem text_encode (s : String) (rest : List Char) :
    text (Quoted.encode s.toList ++ rest) = .ok (s, rest) := by
  rw [encode_append, text, bind_eq (peek_cons (by decide) _)]
  exact string_encode s rest

/-! ## Values without brackets -/

theorem isSpace_of_isDigit {c : Char} (digit : c.isDigit = true) : isSpace c = false := by
  have notBlank : c ≠ ' ' := ne_of_isDigit digit (by decide)
  have notFeed : c ≠ '\n' := ne_of_isDigit digit (by decide)
  have notTab : c ≠ '\t' := ne_of_isDigit digit (by decide)
  have notReturn : c ≠ '\r' := ne_of_isDigit digit (by decide)
  simp [isSpace, notBlank, notFeed, notTab, notReturn]

/-- Any value that begins with neither bracket is a scalar. -/
theorem value_of_scalar {c : Char} (word : isSpace c = false) (notBracket : c ≠ '[')
    (notBrace : c ≠ '{') (depth : Nat) (cs : List Char) :
    value depth (c :: cs) = scalar (c :: cs) := by
  have around (nested : Option (Decoder Value)) :
      valueAround nested (c :: cs) = scalar (c :: cs) := by
    rw [valueAround, bind_eq (peek_cons word cs)]
    refine congrFun (?_ : _ = scalar) (c :: cs)
    split
    · next same => exact absurd (Option.some.inj same) notBracket
    · next same => exact absurd (Option.some.inj same) notBrace
    · rfl
  cases depth with
  | zero => exact around none
  | succ depth => exact around (some (value depth))

theorem value_digitChars (depth : Nat) {n : Nat} (fits : n < UInt64.size)
    (ends : Number.Ends rest) : value depth (digitChars n ++ rest) = .ok (.int n, rest) := by
  have read := Number.decode_digitChars fits ends
  rcases head_digitChars n with ⟨first, others, spelled, _⟩
  have digit : first.isDigit = true := isDigit_of_mem_digitChars (spelled ▸ List.mem_cons_self)
  have word := isSpace_of_isDigit digit
  rw [spelled, List.cons_append] at read ⊢
  rw [value_of_scalar word (ne_of_isDigit digit (by decide)) (ne_of_isDigit digit (by decide)),
    scalar,
    bind_eq (peek_cons word _)]
  refine Eq.trans (congrFun (?_ : _ = Number.decode) _) read
  split
  · next same => cases same
  · next same => exact absurd (Option.some.inj same) (ne_of_isDigit digit (by decide))
  · next same => exact absurd (Option.some.inj same) (ne_of_isDigit digit (by decide))
  · next same => exact absurd (Option.some.inj same) (ne_of_isDigit digit (by decide))
  · next same => exact absurd (Option.some.inj same) (ne_of_isDigit digit (by decide))
  · next same =>
      cases same
      exact if_pos (by rw [digit, Bool.or_true])

theorem value_encode (depth : Nat) (s : String) (rest : List Char) :
    value depth (Quoted.encode s.toList ++ rest) = .ok (.string s, rest) := by
  rw [encode_append, value_of_scalar (by decide) (by decide) (by decide), scalar,
    bind_eq (peek_cons (by decide) _)]
  change (drop >>= fun _ => Value.string <$> string) _ = _
  rw [bind_eq (drop_cons _ _)]
  change Except.map _ (string _) = _
  rw [string_encode]
  rfl

/-! ## Members between braces -/

theorem commas_cons (text : List Char) (texts : List (List Char)) :
    commas (text :: texts) = text ++ texts.flatMap (',' :: ·) := by
  induction texts generalizing text with
  | nil => simp [commas, List.intercalate]
  | cons next texts ih =>
      have step : commas (text :: next :: texts) = text ++ ',' :: commas (next :: texts) := by
        simp [commas, List.intercalate]
      rw [step, ih next]
      rfl

theorem length_le_flatMap (texts : List (List Char)) :
    texts.length ≤ (texts.flatMap (',' :: ·)).length := by
  induction texts with
  | nil => exact Nat.le_refl 0
  | cons text texts ih =>
      rw [List.flatMap_cons, List.length_append, List.length_cons, List.length_cons]
      omega

/-- Members that are read one after the other, whatever separator follows each, and what becomes of
the state. -/
inductive Folds (item : σ → Decoder σ) : σ → List (List Char) → σ → Prop
  | nil {state} : Folds item state [] state
  | cons {before middle after text texts} (opens : ∃ tail, text = '"' :: tail)
      (reads : ∀ c tail, c = ',' ∨ c = '}' →
        item before (text ++ c :: tail) = .ok (middle, c :: tail))
      (later : Folds item middle texts after) : Folds item before (text :: texts) after

variable {item : σ → Decoder σ} {before after : σ} {texts : List (List Char)}

/-- Behind a member stands a comma or the closing brace. -/
theorem exists_separator (texts : List (List Char)) (rest : List Char) :
    ∃ c tail, (c = ',' ∨ c = '}') ∧ texts.flatMap (',' :: ·) ++ '}' :: rest = c :: tail := by
  cases texts with
  | nil => exact ⟨'}', rest, .inr rfl, rfl⟩
  | cons text texts => exact ⟨',', _, .inl rfl, rfl⟩

theorem foldWithin_of_folds (folds : Folds item before texts after) {bound : List Char}
    (long : texts.length < bound.length) (rest : List Char) :
    foldWithin '}' item bound before (texts.flatMap (',' :: ·) ++ '}' :: rest) =
      .ok (after, rest) := by
  induction folds generalizing bound with
  | nil =>
      cases bound with
      | nil => cases long
      | cons c bound =>
          rw [foldWithin]
          exact bind_eq (peek_cons (by decide) rest) _
  | @cons before middle after text texts _ reads _ ih =>
      cases bound with
      | nil => cases long
      | cons c bound =>
          rcases exists_separator texts rest with ⟨separator, tail, among, same⟩
          have read := reads separator tail among
          have later := ih (Nat.lt_of_succ_lt_succ long)
          rw [same] at later
          rw [List.flatMap_cons, List.cons_append, List.cons_append, List.append_assoc, same,
            foldWithin,
            bind_eq (peek_cons (by decide) _)]
          change (drop >>= fun _ => _) _ = _
          rw [bind_eq (drop_cons _ _), bind_eq read]
          exact later

/-- Members that are read one after the other are read between braces. -/
theorem fold_of_folds (folds : Folds item before texts after) (rest : List Char) :
    fold '}' item before (commas texts ++ '}' :: rest) = .ok (after, rest) := by
  cases folds with
  | nil =>
      rw [fold]
      exact bind_eq (peek_cons (by decide) rest) _
  | @cons _ middle _ text texts opens reads later =>
      rcases exists_separator texts rest with ⟨separator, tail, among, same⟩
      have read := reads separator tail among
      rcases opens with ⟨inner, rfl⟩
      have long : texts.length < (separator :: tail).length := by
        rw [← same, List.length_append, List.length_cons]
        exact Nat.lt_of_le_of_lt (length_le_flatMap texts) (by omega)
      have others := foldWithin_of_folds later long rest
      rw [same] at others
      rw [commas_cons, List.append_assoc, same, fold, List.cons_append,
        bind_eq (peek_cons (by decide) _)]
      change (item before >>= fun _ => _) _ = _
      rw [← List.cons_append, bind_eq read]
      exact others

end Decoder

end PersistedDocuments.Json
