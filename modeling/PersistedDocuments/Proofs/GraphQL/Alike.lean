import PersistedDocuments.Proofs.GraphQL.Spelling
import PersistedDocuments.Proofs.Text.ByteOrder
import PersistedDocuments.Proofs.Text.Separator

/-!
# Strings that are printed alike

Strings are not printed faithfully. In a block string, lines of white space are written empty and
every line gets an end; on one line, the code of a character is written without telling where its
digits end. Among the strings that are printed alike `exemplar` chooses one, so that two strings
have the same printed form exactly if they have the same exemplar.
-/

namespace PersistedDocuments.GraphQL

open Decimal

namespace QuotedString

/-! ## Codes of characters -/

/-- The code of a character that is written by its code, and not like two other characters. -/
def IsCode (n : Nat) : Prop := n < 32 ∨ 65536 ≤ n ∧ n < 655360

theorem ofDigitChars_fourDigits (n : Nat) : Nat.ofDigitChars 10 (fourDigits n) 0 = n := by
  rw [fourDigits, Nat.ofDigitChars_append, Nat.ofDigitChars_replicate_zero, Nat.mul_zero,
    Nat.ofDigitChars_ten_toDigits]

theorem length_fourDigits (n : Nat) (long : 4 < (fourDigits n).length) : 10000 ≤ n := by
  apply Nat.not_lt.1
  intro small
  have short := (Nat.length_toDigits_le_iff (b := 10) (k := 4) (by decide) (by decide)).2 small
  rw [fourDigits, List.length_append, List.length_replicate] at long
  omega

theorem fourDigits_of_large {n : Nat} (large : 10000 ≤ n) : fourDigits n = Nat.toDigits 10 n := by
  have long : 4 < (Nat.toDigits 10 n).length := by
    apply Nat.not_le.1
    intro short
    have small := (Nat.length_toDigits_le_iff (b := 10) (k := 4) (by decide) (by decide)).1 short
    omega
  rw [fourDigits, Nat.sub_eq_zero_of_le (Nat.le_of_lt long), List.replicate_zero, List.nil_append]

theorem fourDigits_of_small {n : Nat} (small : n < 32) :
    (fourDigits n).length = 4 ∧ (fourDigits n).head? = some '0' := by
  have short := (Nat.length_toDigits_le_iff (n := n) (b := 10) (k := 2) (by decide) (by decide)).2
    (by omega)
  constructor
  · rw [fourDigits, List.length_append, List.length_replicate]
    omega
  · obtain ⟨k, zeros⟩ : ∃ k, 4 - (Nat.toDigits 10 n).length = k + 1 :=
      ⟨3 - (Nat.toDigits 10 n).length, by omega⟩
    rw [fourDigits, zeros, List.replicate_succ, List.cons_append, List.head?_cons]

theorem head_fourDigits_of_large {n : Nat} (large : 10000 ≤ n) :
    ∃ first rest, fourDigits n = first :: rest ∧ first ≠ '0' := by
  rcases head_digitChars n with ⟨first, rest, digits, alone⟩
  rw [fourDigits_of_large large]
  refine ⟨first, rest, digits, fun zero => ?_⟩
  have short : (Nat.toDigits 10 n).length ≤ 4 := by
    rw [← digitChars, digits, alone zero, List.length_singleton]
    decide
  have small := (Nat.length_toDigits_le_iff (b := 10) (k := 4) (by decide) (by decide)).1 short
  omega

/-- No code's digits begin another's. -/
theorem eq_of_fourDigits_append {n m : Nat} {more : List Char} (isCode : IsCode n)
    (otherIsCode : IsCode m) (same : fourDigits m = fourDigits n ++ more) : more = [] := by
  cases more with
  | nil => rfl
  | cons c more =>
      have length := congrArg List.length same
      rw [List.length_append, List.length_cons] at length
      rcases isCode with small | ⟨large, _⟩
      · have ⟨four, zero⟩ := fourDigits_of_small small
        have otherLarge := length_fourDigits m (by omega)
        rcases head_fourDigits_of_large otherLarge with ⟨first, rest, digits, notZero⟩
        rw [digits] at same
        have head := congrArg List.head? same
        rw [List.head?_append, zero] at head
        exact absurd (Option.some.inj head) notZero
      · have value := congrArg (Nat.ofDigitChars 10 · 0) same
        simp only [Nat.ofDigitChars_append, ofDigitChars_fourDigits] at value
        rw [Nat.ofDigitChars_eq_ofDigitChars_zero, List.length_cons, Nat.pow_succ] at value
        have tenfold : 10 * n ≤ 10 ^ more.length * 10 * n :=
          Nat.mul_le_mul_right n (Nat.le_mul_of_pos_left 10 (Nat.pow_pos (by decide)))
        exfalso
        rcases otherIsCode with small | ⟨_, limit⟩
        · omega
        · omega

theorem fourDigits_append_inj {n m : Nat} {left right : List Char} (isCode : IsCode n)
    (otherIsCode : IsCode m) (same : fourDigits n ++ left = fourDigits m ++ right) :
    n = m ∧ left = right := by
  have equal : fourDigits n = fourDigits m ∧ left = right := by
    rcases List.append_eq_append_iff.1 same with ⟨more, longer, rest⟩ | ⟨more, longer, rest⟩
    · cases eq_of_fourDigits_append isCode otherIsCode longer
      rw [List.append_nil] at longer
      exact ⟨longer.symm, rest⟩
    · cases eq_of_fourDigits_append otherIsCode isCode longer
      rw [List.append_nil] at longer
      exact ⟨longer, rest.symm⟩
  exact ⟨by rw [← ofDigitChars_fourDigits n, equal.1, ofDigitChars_fourDigits], equal.2⟩

/-! ## Strings on one line -/

/-- A character from U+A0000 on is written like the one whose code lacks the last digit, followed by
that digit. -/
def expandChar (c : Char) : List Char :=
  if 655360 ≤ c.toNat then [Char.ofNat (c.toNat / 10), (c.toNat % 10).digitChar] else [c]

/-- The text that is printed like the given one and holds no character from U+A0000 on. -/
def expand (cs : List Char) : List Char := cs.flatMap expandChar

theorem encodeChar_of_isDigit {c : Char} (digit : c.isDigit = true) : encodeChar c = [c] := by
  have range := toNat_of_isDigit digit
  have plain : isPlain c = true := decide_eq_true ⟨by omega, by omega⟩
  unfold encodeChar
  split
  all_goals first | cases digit | exact if_pos plain

theorem encodeChar_of_large {c : Char} (large : 65536 ≤ c.toNat) :
    encodeChar c = '\\' :: 'u' :: fourDigits c.toNat := by
  have hidden : ¬isPlain c = true := by
    intro plain
    have := (of_decide_eq_true plain).2
    omega
  unfold encodeChar
  split
  all_goals first | exact absurd large (by decide) | exact if_neg hidden

/-- The character that is written for the code without its last digit. -/
theorem toNat_expanded {c : Char} (large : 655360 ≤ c.toNat) :
    (Char.ofNat (c.toNat / 10)).toNat = c.toNat / 10 := by
  have limit := Text.toNat_lt_limit c
  exact toNat_of_isValidChar (.inr ⟨by omega, by omega⟩)

theorem encode_expandChar (c : Char) : (expandChar c).flatMap encodeChar = encodeChar c := by
  rw [expandChar]
  split
  · next large =>
      have digit : (c.toNat % 10).digitChar.isDigit = true :=
        Nat.isDigit_digitChar.trans (decide_eq_true (Nat.mod_lt _ (by decide)))
      have first := toNat_expanded large
      have digits :
          fourDigits c.toNat = fourDigits (c.toNat / 10) ++ [(c.toNat % 10).digitChar] := by
        rw [fourDigits_of_large (by omega), fourDigits_of_large (by omega),
          Nat.toDigits_of_base_le (by decide) (by omega)]
      rw [List.flatMap_cons, List.flatMap_singleton, encodeChar_of_isDigit digit,
        encodeChar_of_large (by omega), encodeChar_of_large (c := c) (by omega), first, digits]
      rfl
  · exact List.flatMap_singleton _ _

theorem encode_expand (cs : List Char) :
    (expand cs).flatMap encodeChar = cs.flatMap encodeChar := by
  rw [expand, List.flatMap_assoc]
  simp only [encode_expandChar]

theorem expand_eq_self {cs : List Char} (small : ∀ c ∈ cs, c.toNat < 655360) : expand cs = cs := by
  induction cs with
  | nil => rfl
  | cons c cs ih =>
      rw [expand, List.flatMap_cons, expandChar, if_neg (Nat.not_le.2 (small c List.mem_cons_self))]
      exact congrArg (c :: ·) (ih fun d later => small d (List.mem_cons_of_mem _ later))

theorem small_of_mem_expand {cs : List Char} {c : Char} (present : c ∈ expand cs) :
    c.toNat < 655360 := by
  rcases List.mem_flatMap.1 present with ⟨original, _, present⟩
  rw [expandChar] at present
  split at present
  · next large =>
      have limit := Text.toNat_lt_limit original
      rcases List.mem_cons.1 present with rfl | digit
      · rw [toNat_expanded large]
        omega
      · rw [List.mem_singleton.1 digit,
          Nat.toNat_digitChar_of_lt_ten (Nat.mod_lt _ (by decide))]
        omega
  · next small =>
      rw [List.mem_singleton.1 present]
      omega

theorem encodeChar_append_inj {c d : Char} {left right : List Char} (small : c.toNat < 655360)
    (otherSmall : d.toNat < 655360) (same : encodeChar c ++ left = encodeChar d ++ right) :
    c = d ∧ left = right := by
  have spelled := spelling_encodeChar c
  have otherSpelled := spelling_encodeChar d
  generalize encodeChar c = chars at spelled same
  generalize encodeChar d = others at otherSpelled same
  have code {e : Char} (hidden : isPlain e = false) (limit : e.toNat < 655360) :
      IsCode e.toNat := by
    have outside := of_decide_eq_false hidden
    rw [IsCode]
    omega
  cases spelled with
  | letter means notCode notFeed =>
      cases otherSpelled with
      | letter otherMeans =>
          rcases List.cons.inj (List.cons.inj same).2 with ⟨rfl, rest⟩
          exact ⟨Option.some.inj (means.symm.trans otherMeans), rest⟩
      | plain notQuote notBackslash notFeed =>
          exact absurd (List.cons.inj same).1.symm notBackslash
      | code hidden =>
          exact absurd (List.cons.inj (List.cons.inj same).2).1 notCode
  | plain notQuote notBackslash notFeed =>
      cases otherSpelled with
      | letter => exact absurd (List.cons.inj same).1 notBackslash
      | plain => exact List.cons.inj same
      | code => exact absurd (List.cons.inj same).1 notBackslash
  | code hidden =>
      cases otherSpelled with
      | letter means notCode =>
          exact absurd (List.cons.inj (List.cons.inj same).2).1.symm notCode
      | plain notQuote notBackslash notFeed =>
          exact absurd (List.cons.inj same).1.symm notBackslash
      | code otherHidden =>
          have ⟨codes, rest⟩ := fourDigits_append_inj (code hidden small)
            (code otherHidden otherSmall) (List.cons.inj (List.cons.inj same).2).2
          exact ⟨Char.toNat_inj.1 codes, rest⟩

theorem encodeChar_ne_nil (c : Char) : encodeChar c ≠ [] := by
  have spelled := spelling_encodeChar c
  generalize encodeChar c = chars at spelled
  cases spelled <;> exact List.cons_ne_nil _ _

/-- Texts without characters from U+A0000 on are written differently. -/
theorem eq_of_flatMap_encodeChar {cs ds : List Char} (small : ∀ c ∈ cs, c.toNat < 655360)
    (otherSmall : ∀ c ∈ ds, c.toNat < 655360)
    (same : cs.flatMap encodeChar = ds.flatMap encodeChar) : cs = ds := by
  induction cs generalizing ds with
  | nil =>
      cases ds with
      | nil => rfl
      | cons d ds => exact absurd (List.append_eq_nil_iff.1 same.symm).1 (encodeChar_ne_nil d)
  | cons c cs ih =>
      cases ds with
      | nil => exact absurd (List.append_eq_nil_iff.1 same).1 (encodeChar_ne_nil c)
      | cons d ds =>
          rw [List.flatMap_cons, List.flatMap_cons] at same
          have ⟨head, tail⟩ := encodeChar_append_inj (small c List.mem_cons_self)
            (otherSmall d List.mem_cons_self) same
          rw [head, ih (fun e later => small e (List.mem_cons_of_mem _ later))
            (fun e later => otherSmall e (List.mem_cons_of_mem _ later)) tail]

end QuotedString

namespace BlockString

open Text

/-! ## Escaped lines -/

theorem escape_ne_fence (line others : List Char) : escape line ≠ '"' :: '"' :: '"' :: others := by
  intro same
  rw [escape.eq_def] at same
  split at same
  · cases same
  · cases same
  · next c rest notFence =>
      rcases List.cons.inj same with ⟨quote, behind⟩
      have ended : escape rest ++ '\n' :: [] = '"' :: '"' :: (others ++ ['\n']) := by
        rw [behind]
        rfl
      rcases eq_of_escape_append ended with ⟨more, begins⟩
      exact notFence more quote begins

/-- Removing the backslashes undoes writing them. -/
theorem unescape_escape (line : List Char) : unescape (escape line) = line := by
  fun_induction escape line with
  | case1 => rfl
  | case2 rest ih =>
      change unescape ('\\' :: '"' :: '"' :: '"' :: escape rest) = _
      rw [unescape, ih]
      rfl
  | case3 c rest notFence ih =>
      rw [unescape.eq_def]
      split
      · next same => cases same
      · next same =>
          exact absurd (List.cons.inj same).2 (escape_ne_fence rest _)
      · next same =>
          cases same
          rw [ih]

theorem mem_escape {line : List Char} {c : Char} (present : c ∈ escape line) :
    c = '\\' ∨ c ∈ line := by
  fun_induction escape line with
  | case1 => exact .inr present
  | case2 rest ih =>
      rcases List.mem_cons.1 present with backslash | later
      · exact .inl backslash
      · rcases List.mem_append.1 later with quote | later
        · exact .inr (List.mem_append_left rest quote)
        · exact (ih later).imp_right (List.mem_append_right fence)
  | case3 d rest _ ih =>
      rcases List.mem_cons.1 present with rfl | later
      · exact .inr List.mem_cons_self
      · exact (ih later).imp_right (List.mem_cons_of_mem d)

/-! ## Lines -/

theorem lines_cons {c : Char} {cs : List Char} (notFeed : c ≠ '\n')
    (notEnd : ∀ rest, c = '\r' → cs ≠ '\n' :: rest) :
    lines (c :: cs) = match lines cs with
      | [] => [[c]]
      | line :: rest => (c :: line) :: rest := by
  rw [lines.eq_def]
  split
  · next same => cases same
  · next same => exact absurd (List.cons.inj same).1 notFeed
  · next same =>
      rcases List.cons.inj same with ⟨isReturn, ended⟩
      exact absurd ended (notEnd _ isReturn)
  · next same =>
      cases same
      rfl

theorem mem_of_mem_lines {cs line : List Char} (isLine : line ∈ lines cs) {c : Char}
    (present : c ∈ line) : c ∈ cs ∧ c ≠ '\n' := by
  fun_induction lines cs generalizing line with
  | case1 => cases isLine
  | case2 cs ih =>
      rcases List.mem_cons.1 isLine with rfl | later
      · cases present
      · exact (ih later present).imp_left (List.mem_cons_of_mem _)
  | case3 cs ih =>
      rcases List.mem_cons.1 isLine with rfl | later
      · cases present
      · exact (ih later present).imp_left fun old =>
          List.mem_cons_of_mem _ (List.mem_cons_of_mem _ old)
  | case4 c' cs notFeed notEnd none ih =>
      cases List.mem_singleton.1 isLine
      cases List.mem_singleton.1 present
      exact ⟨List.mem_cons_self, notFeed⟩
  | case5 c' cs notFeed notEnd first rest found ih =>
      rw [found] at ih
      rcases List.mem_cons.1 isLine with rfl | later
      · rcases List.mem_cons.1 present with rfl | inner
        · exact ⟨List.mem_cons_self, notFeed⟩
        · exact (ih List.mem_cons_self inner).imp_left (List.mem_cons_of_mem _)
      · exact (ih (List.mem_cons_of_mem _ later) present).imp_left (List.mem_cons_of_mem _)

theorem lines_ne_nil (c : Char) (cs : List Char) : lines (c :: cs) ≠ [] := by
  rw [lines.eq_def]
  split
  · next same => cases same
  · exact List.cons_ne_nil _ _
  · exact List.cons_ne_nil _ _
  · split <;> exact List.cons_ne_nil _ _

/-- The line with an end that leaves a carriage return in the line. -/
def endLine (line : List Char) : List Char :=
  line ++ if line.getLast? = some '\r' then ['\r', '\n'] else ['\n']

/-- The line as it is written, empty if it is white space. -/
def bareLine (line : List Char) : List Char := if allBlank line then [] else line

/-- The text that is printed like the given one, with bare lines that all have an end. -/
def straighten (cs : List Char) : List Char := ((lines cs).map bareLine).flatMap endLine

theorem lines_endLine {line : List Char} (noFeed : '\n' ∉ line) (rest : List Char) :
    lines (endLine line ++ rest) = line :: lines rest := by
  induction line with
  | nil => exact lines_cons_lineFeed rest
  | cons c line ih =>
      have notFeed : c ≠ '\n' := fun same => noFeed (same ▸ List.mem_cons_self)
      cases line with
      | nil =>
          by_cases isReturn : c = '\r'
          · subst isReturn
            change lines ('\r' :: '\r' :: '\n' :: rest) = _
            rw [lines_cons (by decide) fun _ _ same => absurd (List.cons.inj same).1 (by decide),
              lines]
          · have ended : endLine [c] = [c, '\n'] := by simp [endLine, isReturn]
            rw [ended]
            change lines (c :: '\n' :: rest) = _
            rw [lines_cons notFeed fun _ same => absurd same isReturn, lines_cons_lineFeed]
      | cons d line =>
          have tail := ih fun later => noFeed (List.mem_cons_of_mem _ later)
          have ended : endLine (c :: d :: line) = c :: endLine (d :: line) := by
            simp [endLine, List.getLast?_cons_cons]
          rw [ended, List.cons_append, lines_cons notFeed, tail]
          rintro _ _ same
          have feed : d = '\n' := (List.cons.inj same).1
          exact noFeed (feed ▸ List.mem_cons_of_mem _ List.mem_cons_self)

theorem lines_flatMap_endLine {given : List (List Char)} (noFeeds : ∀ line ∈ given, '\n' ∉ line) :
    lines (given.flatMap endLine) = given := by
  induction given with
  | nil => rfl
  | cons line rest ih =>
      rw [List.flatMap_cons, lines_endLine (noFeeds line List.mem_cons_self),
        ih fun other later => noFeeds other (List.mem_cons_of_mem _ later)]

theorem lineFeed_not_mem_bareLine {cs bare : List Char} (present : bare ∈ (lines cs).map bareLine) :
    '\n' ∉ bare := by
  intro feed
  rcases List.mem_map.1 present with ⟨line, isLine, rfl⟩
  rw [bareLine] at feed
  split at feed
  · cases feed
  · exact (mem_of_mem_lines isLine feed).2 rfl

theorem lines_straighten (cs : List Char) : lines (straighten cs) = (lines cs).map bareLine :=
  lines_flatMap_endLine fun _ => lineFeed_not_mem_bareLine

theorem encodeLine_bareLine (indent : Nat) (line : List Char) :
    encodeLine indent (bareLine line) = encodeLine indent line := by
  rw [bareLine]
  split
  · next blank =>
      rw [encodeLine, encodeLine, if_pos blank]
      rfl
  · rfl

theorem encode_straighten (indent : Nat) (cs : List Char) :
    encode indent (straighten cs) = encode indent cs := by
  rw [encode, encode, lines_straighten, List.flatMap_map]
  simp only [encodeLine_bareLine]

/-! ## What block strings show -/

/-- A line as it is written, without its end. -/
def shownLine (indent : Nat) (line : List Char) : List Char :=
  if allBlank line then [] else blanks (indent + 2) ++ escape line

theorem encodeLine_eq (indent : Nat) (line : List Char) :
    encodeLine indent line = shownLine indent line ++ ['\n'] := rfl

theorem lineFeed_not_mem_shownLine {line : List Char} (noFeed : '\n' ∉ line) (indent : Nat) :
    '\n' ∉ shownLine indent line := by
  intro feed
  rw [shownLine] at feed
  split at feed
  · cases feed
  · rcases List.mem_append.1 feed with blank | escaped
    · exact absurd (List.eq_of_mem_replicate blank) (by decide)
    · rcases mem_escape escaped with backslash | inside
      · exact absurd backslash (by decide)
      · exact noFeed inside

theorem bareLine_of_shownLine {indent : Nat} {line other : List Char}
    (same : shownLine indent line = shownLine indent other) : bareLine line = bareLine other := by
  rw [shownLine, shownLine] at same
  rw [bareLine, bareLine]
  split at same
  · next blank =>
      split at same
      · next otherBlank => rw [if_pos blank, if_pos otherBlank]
      · cases same
  · next text =>
      split at same
      · cases same
      · next otherText =>
          have escaped := congrArg unescape (List.append_cancel_left same)
          rw [unescape_escape, unescape_escape] at escaped
          rw [if_neg text, if_neg otherText, escaped]

theorem map_bareLine_of_encodeLine {indent : Nat} {given others : List (List Char)}
    (noFeeds : ∀ line ∈ given, '\n' ∉ line) (otherNoFeeds : ∀ line ∈ others, '\n' ∉ line)
    (same : given.flatMap (encodeLine indent) = others.flatMap (encodeLine indent)) :
    given.map bareLine = others.map bareLine := by
  induction given generalizing others with
  | nil =>
      cases others with
      | nil => rfl
      | cons other others => simp [encodeLine_eq] at same
  | cons line given ih =>
      cases others with
      | nil => simp [encodeLine_eq] at same
      | cons other others =>
          rw [List.flatMap_cons, List.flatMap_cons, encodeLine_eq, encodeLine_eq,
            List.append_assoc, List.append_assoc] at same
          have ⟨shown, rest⟩ := Text.append_cons_inj
            (lineFeed_not_mem_shownLine (noFeeds line List.mem_cons_self) indent)
            (lineFeed_not_mem_shownLine (otherNoFeeds other List.mem_cons_self) indent) same
          rw [List.map_cons, List.map_cons, bareLine_of_shownLine shown,
            ih (fun _ later => noFeeds _ (List.mem_cons_of_mem _ later))
              (fun _ later => otherNoFeeds _ (List.mem_cons_of_mem _ later)) rest]

/-- Texts that are printed alike have the same bare lines. -/
theorem straighten_of_encode {indent : Nat} {cs ds : List Char}
    (same : encode indent cs = encode indent ds) : straighten cs = straighten ds := by
  have written :
      (lines cs).flatMap (encodeLine indent) = (lines ds).flatMap (encodeLine indent) := by
    rw [encode, encode, List.append_cancel_right_eq, List.append_cancel_right_eq] at same
    exact (List.cons.inj (List.append_cancel_left same)).2
  rw [straighten, straighten, map_bareLine_of_encodeLine
    (fun _ isLine feed => (mem_of_mem_lines isLine feed).2 rfl)
    (fun _ isLine feed => (mem_of_mem_lines isLine feed).2 rfl) written]

theorem mem_straighten {cs : List Char} {c : Char} (present : c ∈ straighten cs) :
    c = '\r' ∨ c = '\n' ∨ c ∈ cs := by
  rcases List.mem_flatMap.1 present with ⟨bare, among, present⟩
  rcases List.mem_map.1 among with ⟨line, isLine, rfl⟩
  rw [endLine] at present
  rcases List.mem_append.1 present with inside | ending
  · rw [bareLine] at inside
    split at inside
    · cases inside
    · exact .inr (.inr (mem_of_mem_lines isLine inside).1)
  · split at ending <;> simp at ending <;> tauto

theorem suits_straighten {cs : List Char} (suits : BlockString.suits cs = true) :
    BlockString.suits (straighten cs) = true := by
  have ⟨feed, all⟩ := Bool.and_eq_true_iff.1 suits
  rw [List.all_eq_true] at all
  refine Bool.and_eq_true_iff.2 ⟨?_, ?_⟩
  · cases cs with
    | nil => cases feed
    | cons c cs =>
        cases found : lines (c :: cs) with
        | nil => exact absurd found (lines_ne_nil c cs)
        | cons line rest =>
            rw [List.contains_iff_mem, straighten, found, List.map_cons, List.flatMap_cons]
            apply List.mem_append_left
            rw [endLine]
            apply List.mem_append_right
            split <;> simp
  · rw [List.all_eq_true]
    intro c present
    rcases mem_straighten present with rfl | rfl | old
    · rfl
    · rfl
    · exact all c old

end BlockString

/-! ## Exemplars -/

/-- The string that is chosen among all that are printed like the given one. -/
def exemplar (s : String) : String :=
  if BlockString.suits s.toList then String.ofList (BlockString.straighten s.toList)
  else String.ofList (QuotedString.expand s.toList)

/-- A text with an expanded character does not suit a block string. -/
theorem QuotedString.expand_of_suits {cs : List Char}
    (suits : BlockString.suits (expand cs) = true) : expand cs = cs := by
  have all := List.all_eq_true.1 (Bool.and_eq_true_iff.1 suits).2
  have small : ∀ c ∈ cs, c.toNat < 655360 := by
    intro c present
    apply Nat.not_le.1
    intro large
    have expanded : Char.ofNat (c.toNat / 10) ∈ expand cs := by
      refine List.mem_flatMap.2 ⟨c, present, ?_⟩
      rw [expandChar, if_pos large]
      exact List.mem_cons_self
    have first := toNat_expanded large
    have allowed := all _ expanded
    generalize Char.ofNat (c.toNat / 10) = d at first allowed
    simp only [Bool.or_eq_true, decide_eq_true_eq, isPlain] at allowed
    rcases allowed with ((rfl | rfl) | rfl) | ⟨_, upper⟩
    · have : '\n'.toNat = 10 := rfl
      omega
    · have : '\r'.toNat = 13 := rfl
      omega
    · have : '\t'.toNat = 9 := rfl
      omega
    · omega
  exact expand_eq_self small

theorem not_suits_expand {cs : List Char} (notSuits : ¬BlockString.suits cs = true) :
    ¬BlockString.suits (QuotedString.expand cs) = true := by
  intro suits
  rw [QuotedString.expand_of_suits suits] at suits
  exact notSuits suits

theorem exemplar_of_suits {s : String} (suits : BlockString.suits s.toList = true) :
    (exemplar s).toList = BlockString.straighten s.toList := by
  rw [exemplar, if_pos suits, String.toList_ofList]

theorem exemplar_of_not_suits {s : String} (notSuits : ¬BlockString.suits s.toList = true) :
    (exemplar s).toList = QuotedString.expand s.toList := by
  rw [exemplar, if_neg notSuits, String.toList_ofList]

/-- The exemplar is printed like the string. -/
theorem stringChars_exemplar (indent : Nat) (s : String) :
    stringChars indent (exemplar s) = stringChars indent s := by
  rw [stringChars, stringChars]
  by_cases suits : BlockString.suits s.toList = true
  · rw [exemplar_of_suits suits, if_pos suits, if_pos (BlockString.suits_straighten suits),
      BlockString.encode_straighten]
  · rw [exemplar_of_not_suits suits, if_neg suits, if_neg (not_suits_expand suits),
      QuotedString.encode, QuotedString.encode, QuotedString.encode_expand]

/-- A block string and a string on one line are printed differently. -/
theorem encode_ne_encode (indent : Nat) (cs ds : List Char) :
    BlockString.encode indent cs ≠ QuotedString.encode ds := by
  intro same
  have behind := (List.cons.inj same).2
  have notQuote : ([] : List Char).head? ≠ some '"' := by decide
  exact Token.encode_ne_quote notQuote _ behind.symm

/-- Strings are printed alike exactly if they have the same exemplar. -/
theorem exemplar_eq_exemplar {indent : Nat} {s t : String} :
    exemplar s = exemplar t ↔ stringChars indent s = stringChars indent t := by
  constructor
  · intro same
    rw [← stringChars_exemplar, same, stringChars_exemplar]
  · intro same
    rw [stringChars, stringChars] at same
    apply String.toList_inj.1
    by_cases suits : BlockString.suits s.toList = true
    · by_cases otherSuits : BlockString.suits t.toList = true
      · rw [if_pos suits, if_pos otherSuits] at same
        rw [exemplar_of_suits suits, exemplar_of_suits otherSuits]
        exact BlockString.straighten_of_encode same
      · rw [if_pos suits, if_neg otherSuits] at same
        exact absurd same (encode_ne_encode indent _ _)
    · by_cases otherSuits : BlockString.suits t.toList = true
      · rw [if_neg suits, if_pos otherSuits] at same
        exact absurd same.symm (encode_ne_encode indent _ _)
      · rw [if_neg suits, if_neg otherSuits, QuotedString.encode, QuotedString.encode,
          List.append_cancel_right_eq] at same
        rw [exemplar_of_not_suits suits, exemplar_of_not_suits otherSuits]
        apply QuotedString.eq_of_flatMap_encodeChar
        · exact fun _ => QuotedString.small_of_mem_expand
        · exact fun _ => QuotedString.small_of_mem_expand
        · rw [QuotedString.encode_expand, QuotedString.encode_expand]
          exact (List.cons.inj same).2

end PersistedDocuments.GraphQL
