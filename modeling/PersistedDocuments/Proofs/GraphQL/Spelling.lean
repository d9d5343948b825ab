import PersistedDocuments.Proofs.Decimal.Digits
import PersistedDocuments.Proofs.GraphQL.Completeness
import PersistedDocuments.Proofs.GraphQL.Layout
import PersistedDocuments.Proofs.GraphQL.Strings

/-!
# Words as tokens

The scan of a printed text finds its words, one token for each. Names and integers are found as they
are, strings as they read. Hence a text lays out words in only one way, up to strings that are
printed alike.
-/

namespace PersistedDocuments.GraphQL

open Decimal

/-- A word that the scan finds as the printer writes it: any but a float, a name that is none, and
an integer that is too large. -/
def Word.Legible : Word → Prop
  | .name text => IsName text
  | .int n => Number.InRange n
  | .float _ => False
  | _ => True

namespace Word

@[simp] theorem legible_symbol (punctuator : Punctuator) : (symbol punctuator).Legible := trivial

@[simp] theorem legible_name {text : String} : (name text).Legible ↔ IsName text := Iff.rfl

@[simp] theorem legible_int {n : Int} : (int n).Legible ↔ Number.InRange n := Iff.rfl

@[simp] theorem legible_string (indent : Nat) (text : String) :
    (string indent text).Legible := trivial

end Word

/-- The token as which the scan finds the word. -/
def Word.seen : Word → Token
  | .string indent text => stringToken indent text
  | word => word.token

/-! ## Characters that end tokens -/

theorem isNamePart_of_isEnd {c : Char} (ends : Number.isEnd c = true) : isNamePart c = false := by
  simp only [Number.isEnd, Bool.or_eq_true, decide_eq_true_eq] at ends
  rcases ends with (((((rfl | rfl) | rfl) | rfl) | rfl) | rfl) | punctuator
  all_goals try decide
  unfold Punctuator.ofChar? at punctuator
  split at punctuator
  all_goals first | decide | cases punctuator

theorem isDigit_of_isEnd {c : Char} (ends : Number.isEnd c = true) : c.isDigit = false := by
  have part := isNamePart_of_isEnd ends
  simp only [isNamePart, Char.isAlphanum, Bool.or_eq_false_iff] at part
  exact part.1.2

theorem isNamePart_of_isNameStart {c : Char} (start : isNameStart c = true) :
    isNamePart c = true := by
  rw [isNameStart, Bool.or_eq_true] at start
  rw [isNamePart, Bool.or_eq_true, Char.isAlphanum, Bool.or_eq_true]
  exact start.imp_left .inl

theorem isEnd_of_ofChar? {c : Char} {punctuator : Punctuator}
    (found : Punctuator.ofChar? c = some punctuator) : Number.isEnd c = true := by
  rw [Number.isEnd, found]
  simp

theorem ofChar?_of_isNamePart {c : Char} (part : isNamePart c = true) :
    Punctuator.ofChar? c = none := by
  cases found : Punctuator.ofChar? c with
  | none => rfl
  | some punctuator =>
      rw [isNamePart_of_isEnd (isEnd_of_ofChar? found)] at part
      cases part

theorem isNameStart_of_isDigit {c : Char} (digit : c.isDigit = true) : isNameStart c = false := by
  have among : ∀ n < 58, 48 ≤ n → isNameStart (Char.ofNat n) = false := by decide
  have ⟨above, below⟩ : 48 ≤ c.toNat ∧ c.toNat ≤ 57 := Char.isDigit_iff_toNat.1 digit
  rw [← Char.ofNat_toNat c]
  exact among c.toNat (Nat.lt_succ_of_le below) above

theorem isNamePart_of_isDigit {c : Char} (digit : c.isDigit = true) : isNamePart c = true := by
  rw [isNamePart, Bool.or_eq_true, Char.isAlphanum, Bool.or_eq_true]
  exact .inl (.inr digit)

theorem isEnd_of_isDigit {c : Char} (digit : c.isDigit = true) : Number.isEnd c = false := by
  cases ends : Number.isEnd c with
  | false => rfl
  | true =>
      rw [isDigit_of_isEnd ends] at digit
      cases digit

/-! ## Printed integers -/

namespace Number

theorem digits_digitChars (n : Nat) :
    digits (Decimal.digitChars n) = (Decimal.digitChars n, []) := by
  have ⟨taken, left⟩ := takeWhile_append_of_stops []
    (fun _ => isDigit_of_mem_digitChars (n := n)) fun _ none => (nomatch none)
  rw [List.append_nil] at taken left
  rw [digits, taken, left]

theorem whole?_digitChars (n : Nat) :
    whole? (Decimal.digitChars n) = some (Decimal.digitChars n, []) := by
  rcases head_digitChars n with ⟨first, rest, spelled, zero⟩
  rw [whole?, digits_digitChars, spelled]
  split
  · next same => cases same
  · next same =>
      cases same
      cases zero rfl
  · rfl

/-- Every character of a printed integer is a digit, but for the sign before them. -/
theorem mem_intChars {n : Int} {c : Char} (present : c ∈ intChars n) :
    c = '-' ∨ c.isDigit = true := by
  cases n with
  | ofNat n => exact .inr (isDigit_of_mem_digitChars present)
  | negSucc n => exact (List.mem_cons.1 present).imp_right isDigit_of_mem_digitChars

theorem sign_intChars (n : Int) :
    sign (intChars n) = (decide (n < 0), Decimal.digitChars n.natAbs) := by
  cases n with
  | negSucc n => simp [intChars, sign, Int.negSucc_lt_zero]
  | ofNat n =>
      rcases head_digitChars n with ⟨first, rest, spelled, _⟩
      have digit : first.isDigit = true := isDigit_of_mem_digitChars (spelled ▸ List.mem_cons_self)
      rw [intChars, Int.ofNat_eq_natCast, Int.natAbs_natCast, spelled, sign]
      · simp
      · intro cs same
        exact ne_of_isDigit digit (by decide) (List.cons.inj same).1

/-- A printed integer of 64 bits is read. -/
theorem int?_intChars {n : Int} (inRange : InRange n) : int? (intChars n) = some n := by
  have value : (if decide (n < 0) = true then -(n.natAbs : Int) else (n.natAbs : Int)) = n := by
    split
    · next negative =>
        have := of_decide_eq_true negative
        omega
    · next positive =>
        have := of_decide_eq_false (Bool.eq_false_iff.2 positive)
        omega
  have limits : -intLimit ≤ n ∧ n < intLimit := inRange
  rw [int?, sign_intChars]
  change (whole? (Decimal.digitChars n.natAbs) >>= _) = _
  rw [whole?_digitChars, Option.bind_eq_bind, Option.bind_some]
  dsimp only
  rw [guard, if_pos List.isEmpty_nil, Decimal.ofDigitChars_digitChars, value, guard, if_pos limits]
  rfl

theorem token?_intChars {n : Int} (inRange : InRange n) : token? (intChars n) = some (.int n) := by
  have whole : (intChars n).any (fun c => c = '.' || c = 'e' || c = 'E') = false := by
    rw [List.any_eq_false]
    intro c present
    rcases mem_intChars present with rfl | digit
    · decide
    · simp [ne_of_isDigit digit (show Char.isDigit '.' = false by decide),
        ne_of_isDigit digit (show Char.isDigit 'e' = false by decide),
        ne_of_isDigit digit (show Char.isDigit 'E' = false by decide)]
  rw [token?, whole, int?_intChars inRange]
  rfl

end Number

namespace Token

variable {rest : List Char}

theorem read?_symbol (punctuator : Punctuator) (rest : List Char) :
    read? (punctuator.chars ++ rest) =
      some (.punctuator punctuator, punctuator.chars, rest) := by
  cases punctuator <;> rfl

theorem read?_name {text : String} (isName : IsName text) (stops : Stops rest) :
    read? (text.toList ++ rest) = some (.name text, text.toList, rest) := by
  rcases isName with ⟨first, others, spelled, start, parts⟩
  have ⟨taken, left⟩ := takeWhile_append_of_stops rest parts fun c head =>
    isNamePart_of_isEnd (stops c head)
  have notDot : first ≠ '.' := by
    rintro rfl
    exact absurd start (by decide)
  have noPunctuator := ofChar?_of_isNamePart (isNamePart_of_isNameStart start)
  have whole : text = String.ofList (first :: others) := by rw [← spelled, String.ofList_toList]
  rw [spelled, List.cons_append, read?]
  · simp only [noPunctuator, start, taken, left, ← whole]
    rfl
  · exact fun _ dot _ => notDot dot

theorem read?_int {n : Int} (inRange : Number.InRange n) (stops : Stops rest) :
    read? (intChars n ++ rest) = some (.int n, intChars n, rest) := by
  have opens : ∀ c ∈ intChars n, (!Number.isEnd c) = true ∧ Punctuator.ofChar? c = none ∧
      isNameStart c = false ∧ (c = '-' || c.isDigit) = true ∧ c ≠ '.' := by
    intro c present
    rcases Number.mem_intChars present with rfl | digit
    · decide
    · exact ⟨by rw [isEnd_of_isDigit digit]; rfl,
        ofChar?_of_isNamePart (isNamePart_of_isDigit digit), isNameStart_of_isDigit digit,
        by rw [digit, Bool.or_true], ne_of_isDigit digit (by decide)⟩
  have value := Number.token?_intChars inRange
  generalize intChars n = chars at opens value
  cases chars with
  | nil => cases value
  | cons first others =>
      have ⟨_, noPunctuator, noName, number, notDot⟩ := opens first List.mem_cons_self
      have ⟨taken, left⟩ := takeWhile_append_of_stops rest
        (fun c present => (opens c (List.mem_cons_of_mem _ present)).1)
        fun c head => by rw [stops c head]; rfl
      rw [List.cons_append, read?]
      · simp only [noPunctuator, noName, number, taken, left, value]
        rfl
      · exact fun _ dot _ => notDot dot

theorem read?_string (indent : Nat) (s : String) (stops : Stops rest) :
    read? (stringChars indent s ++ rest) =
      some (stringToken indent s, stringChars indent s, rest) := by
  have notQuote : rest.head? ≠ some '"' := by
    intro quote
    exact absurd (stops _ quote) (by decide)
  rcases readString?_stringChars indent s notQuote with ⟨body, printed, read⟩
  rw [printed] at read ⊢
  exact read

end Token

/-- What the scan finds at the front of a word. -/
theorem Word.read? {word : Word} {rest : List Char} (legible : word.Legible) (stops : Stops rest) :
    Token.read? (word.chars ++ rest) = some (word.seen, word.chars, rest) := by
  cases word with
  | symbol punctuator => exact Token.read?_symbol punctuator rest
  | name text => exact Token.read?_name legible stops
  | int n => exact Token.read?_int legible stops
  | float x => exact legible.elim
  | string indent s => exact Token.read?_string indent s stops

/-! ## The scan of a layout -/

section Scan

variable {c : Char} {cs rest text : List Char} {token : Token} {words : List Word}

/-- No token begins with a character that the scan skips. -/
theorem skipIgnored_of_read? (pos : Pos) (read : Token.read? cs = some (token, text, rest)) :
    skipIgnored false pos cs = (pos, cs) := by
  cases cs with
  | nil => cases read
  | cons c cs =>
      have kept : ∀ d ∈ [' ', ',', '\t', '\n', '\r', '\uFEFF', '#'], c ≠ d := by
        rintro d ignored rfl
        have none : Token.read? (c :: cs) = none := by
          simp only [List.mem_cons, List.not_mem_nil, or_false] at ignored
          rcases ignored with rfl | rfl | rfl | rfl | rfl | rfl | rfl <;> rfl
        rw [none] at read
        cases read
      simp only [List.forall_mem_cons] at kept
      simp [skipIgnored, kept]

theorem skipIgnored_gap (gap : isGap c = true) (pos : Pos) (cs : List Char) :
    ∃ here, skipIgnored false pos (c :: cs) = skipIgnored false here cs := by
  simp only [isGap, Bool.or_eq_true, decide_eq_true_eq] at gap
  rcases gap with (rfl | rfl) | rfl
  · exact ⟨_, rfl⟩
  · exact ⟨_, rfl⟩
  · exact ⟨_, rfl⟩

theorem read?_gap (gap : isGap c = true) (cs : List Char) : Token.read? (c :: cs) = none := by
  simp only [isGap, Bool.or_eq_true, decide_eq_true_eq] at gap
  rcases gap with (rfl | rfl) | rfl <;> rfl

theorem scan_of_skipIgnored {pos here : Pos} {others : List Char}
    (same : skipIgnored false pos cs = skipIgnored false here others) :
    scan pos cs = scan here others := by
  rw [scan.eq_def pos cs, scan.eq_def here others]
  generalize skipIgnored false pos cs = found at same
  subst same
  rfl

theorem scan_of_read? (pos : Pos) (read : Token.read? cs = some (token, text, rest)) :
    (scan pos cs).lexemes = ⟨token, pos⟩ :: (scan (pos.after text) rest).lexemes ∧
      (scan pos cs).complete = (scan (pos.after text) rest).complete := by
  have skipped := skipIgnored_of_read? pos read
  rw [scan.eq_def pos cs]
  split
  · next same =>
      rw [skipped] at same
      cases same
      cases read
  · next same =>
      rw [skipped] at same
      cases same
      split
      · next none =>
          rw [read] at none
          cases none
      · next found =>
          rw [read] at found
          cases found
          exact ⟨rfl, rfl⟩

namespace Laid

/-- A layout begins with a gap, or with a word that is read. -/
theorem front (laid : Laid cs words) (legible : ∀ word ∈ words, word.Legible) :
    (cs = [] ∧ words = []) ∨
      (∃ c behind, cs = c :: behind ∧ isGap c = true ∧ Laid behind words) ∨
      ∃ word behind more, words = word :: more ∧ Laid behind more ∧
        Token.read? cs = some (word.seen, word.chars, behind) := by
  cases laid with
  | nil => exact .inl ⟨rfl, rfl⟩
  | gap isGap laid => exact .inr (.inl ⟨_, _, rfl, isGap, laid⟩)
  | symbol laid => exact .inr (.inr ⟨_, _, _, rfl, laid, Token.read?_symbol _ _⟩)
  | word stops laid =>
      exact .inr (.inr ⟨_, _, _, rfl, laid, Word.read? (legible _ List.mem_cons_self) stops⟩)

/-- The scan of a layout ends where the text ends and finds its words. -/
theorem scan (laid : Laid cs words) (legible : ∀ word ∈ words, word.Legible) (pos : Pos) :
    (GraphQL.scan pos cs).lexemes.map Lexeme.token = words.map Word.seen ∧
      (GraphQL.scan pos cs).complete = true := by
  induction laid generalizing pos with
  | nil =>
      rw [GraphQL.scan.eq_def]
      exact ⟨rfl, rfl⟩
  | gap isGap _ ih =>
      rcases skipIgnored_gap isGap pos _ with ⟨here, skipped⟩
      rw [scan_of_skipIgnored skipped]
      exact ih legible here
  | @symbol punctuator cs _ _ ih =>
      have ⟨found, complete⟩ := scan_of_read? pos (Token.read?_symbol punctuator cs)
      have ⟨tail, tailComplete⟩ := ih
        (fun word later => legible word (List.mem_cons_of_mem _ later)) (pos.after punctuator.chars)
      rw [found, complete, List.map_cons, List.map_cons, tail]
      exact ⟨rfl, tailComplete⟩
  | @word word _ _ stops _ ih =>
      have ⟨found, complete⟩ :=
        scan_of_read? pos (Word.read? (legible word List.mem_cons_self) stops)
      have ⟨tail, tailComplete⟩ := ih
        (fun word later => legible word (List.mem_cons_of_mem _ later)) (pos.after word.chars)
      rw [found, complete, List.map_cons, List.map_cons, tail]
      exact ⟨rfl, tailComplete⟩

/-- A text lays out its words in one way: as tokens and in their printed form they are the same. -/
theorem unique {others : List Word} (first : Laid cs words) (second : Laid cs others)
    (legible : ∀ word ∈ words, word.Legible) (legibleOthers : ∀ word ∈ others, word.Legible) :
    words.map (fun word => (word.seen, word.chars)) =
      others.map (fun word => (word.seen, word.chars)) := by
  induction n : cs.length using Nat.strongRecOn generalizing cs words others with
  | ind n ih =>
      subst n
      rcases first.front legible with ⟨rfl, rfl⟩ | ⟨c, behind, rfl, isGap, tail⟩ |
        ⟨word, behind, more, rfl, tail, read⟩
      · rcases second.front legibleOthers with ⟨_, rfl⟩ | ⟨_, _, same, _⟩ | ⟨_, _, _, _, _, read⟩
        · rfl
        · cases same
        · cases read
      · rcases second.front legibleOthers with ⟨same, _⟩ | ⟨_, _, same, _, otherTail⟩ |
          ⟨_, _, _, _, _, read⟩
        · cases same
        · cases same
          exact ih _ (Nat.lt_succ_self _) tail otherTail legible legibleOthers rfl
        · rw [read?_gap isGap] at read
          cases read
      · rcases second.front legibleOthers with ⟨rfl, _⟩ | ⟨_, _, rfl, isGap, _⟩ |
          ⟨other, _, others, rfl, otherTail, otherRead⟩
        · cases read
        · rw [read?_gap isGap] at read
          cases read
        · have same := read.symm.trans otherRead
          simp only [Option.some.injEq, Prod.mk.injEq] at same
          rcases same with ⟨sameToken, sameChars, rfl⟩
          rw [List.map_cons, List.map_cons, sameToken, sameChars,
            ih _ (Token.length_rest_lt read) tail otherTail
              (fun word later => legible word (List.mem_cons_of_mem _ later))
              (fun word later => legibleOthers word (List.mem_cons_of_mem _ later)) rfl]

end Laid

end Scan

end PersistedDocuments.GraphQL
