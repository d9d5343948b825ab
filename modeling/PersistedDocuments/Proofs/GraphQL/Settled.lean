import PersistedDocuments.Proofs.GraphQL.Dedent

/-!
# Strings that settle

A string that has been printed and read need not be the string that it was, and not even be printed
like it; a block string may not be read at all, if its margin ends inside a character. The strings
that are printed alike again can be told by looking at them: on one line no
character may be written by a code that reads differently, and a block string must have at least two
lines, visible lines at both ends, a line without indentation, and no visible line that ends in a
carriage return. For the converse the lines are measured: whatever reading takes away is missing
when the string is printed again.
-/

namespace PersistedDocuments.GraphQL

open Decimal

namespace QuotedString

/-- The characters that read as themselves when they have been printed. -/
def keeps (c : Char) : Bool := c.toNat ≤ 10 || c = '\r' || isPlain c

theorem rereadChar_of_small :
    ∀ n < 32, rereadChar (Char.ofNat n) =
      [Char.ofNat (if keeps (Char.ofNat n) then n else n + 6 * (n / 10))] := by
  decide

theorem rereadChar_of_keeps {c : Char} (kept : keeps c = true) : rereadChar c = [c] := by
  by_cases small : c.toNat < 32
  · have read := rereadChar_of_small c.toNat small
    rwa [Char.ofNat_toNat, if_pos kept, Char.ofNat_toNat] at read
  · apply rereadChar_of_isPlain
    simp only [keeps, Bool.or_eq_true, decide_eq_true_eq] at kept
    rcases kept with (low | rfl) | plain
    · omega
    · exact absurd (by decide) small
    · exact plain

theorem encodeChar_of_range {c : Char} (low : 4096 ≤ c.toNat) (high : c.toNat < 65536) :
    encodeChar c = [c] := by
  have plain : isPlain c = true := decide_eq_true ⟨by omega, by omega⟩
  unfold encodeChar
  split
  all_goals first | exact absurd low (by decide) | exact if_pos plain

/-- A character beyond the basic plane reads as one within it, and further digits. -/
theorem rereadChar_of_large {c : Char} (large : 65536 ≤ c.toNat) :
    ∃ char rest, rereadChar c = char :: rest ∧ 4096 ≤ char.toNat ∧ char.toNat < 65536 := by
  rcases fourDigits_eq_cons c.toNat with ⟨a, b, d, e, rest, digits⟩
  have all : ∀ x ∈ [a, b, d, e], x.isDigit = true := by
    intro x present
    apply isDigit_of_mem_fourDigits (n := c.toNat)
    rw [digits]
    exact List.mem_append_left rest present
  have notZero : a ≠ '0' := by
    rcases head_fourDigits_of_large (n := c.toNat) (by omega) with ⟨first, _, same, notZero⟩
    rw [digits] at same
    rwa [(List.cons.inj same).1]
  have ⟨char, value, low, high⟩ := char?_of_digits all
  refine ⟨char, rest, rereadChar_of_code ?_ value, ?_, by omega⟩
  · rw [encodeChar_of_large large, digits]
  · have range := toNat_of_isDigit (all a List.mem_cons_self)
    have different : a.toNat ≠ '0'.toNat := fun same => notZero (Char.toNat_inj.1 same)
    have zero : '0'.toNat = 48 := rfl
    omega

/-- What the printed form of another character reads as is printed differently. -/
theorem encode_rereadChar_ne {c : Char} (lost : keeps c = false) (left right : List Char) :
    (rereadChar c).flatMap encodeChar ++ left ≠ encodeChar c ++ right := by
  intro same
  have outside : 10 < c.toNat ∧ isPlain c = false := by
    simp only [keeps, Bool.or_eq_false_iff, decide_eq_false_iff_not] at lost
    exact ⟨by omega, lost.2⟩
  by_cases small : c.toNat < 32
  · have read := rereadChar_of_small c.toNat small
    rw [Char.ofNat_toNat, if_neg (by simp [lost])] at read
    have code : (Char.ofNat (c.toNat + 6 * (c.toNat / 10))).toNat =
        c.toNat + 6 * (c.toNat / 10) := toNat_of_isValidChar (.inl (by omega))
    rw [read, List.flatMap_singleton] at same
    have ⟨equal, _⟩ := encodeChar_append_inj (by omega) (by omega) same
    rw [equal] at code
    omega
  · have hidden := of_decide_eq_false outside.2
    have large : 65536 ≤ c.toNat := by omega
    rcases rereadChar_of_large large with ⟨char, rest, read, low, high⟩
    rw [read, List.flatMap_cons, encodeChar_of_range low high, encodeChar_of_large large] at same
    rw [(List.cons.inj same).1] at low
    exact absurd low (by decide)

theorem reread_of_keeps {cs : List Char} (kept : ∀ c ∈ cs, keeps c = true) : reread cs = cs := by
  rw [reread, List.flatMap_congr fun c present => rereadChar_of_keeps (kept c present),
    List.flatMap_singleton']

/-- A text is printed again as it was exactly if all its characters read as themselves. -/
theorem encode_reread {cs : List Char} :
    (reread cs).flatMap encodeChar = cs.flatMap encodeChar ↔ ∀ c ∈ cs, keeps c = true := by
  induction cs with
  | nil => simp [reread]
  | cons c cs ih =>
      rw [List.forall_mem_cons, ← ih, reread, List.flatMap_cons, List.flatMap_append,
        List.flatMap_cons]
      cases kept : keeps c with
      | false =>
          exact iff_of_false (encode_rereadChar_ne kept _ _) fun both => Bool.false_ne_true both.1
      | true =>
          rw [rereadChar_of_keeps kept, List.flatMap_singleton, List.append_cancel_left_eq]
          exact (and_iff_right rfl).symm

end QuotedString

namespace BlockString

open Text

/-! ## Lines that are kept -/

/-- Lines from which reading takes nothing away that would be printed. -/
structure Upright (given : List (List Char)) : Prop where
  several : 2 ≤ given.length
  first : ∀ line ∈ given.head?, allBlank line = false
  last : ∀ line ∈ given.getLast?, allBlank line = false
  flush : margin given = some 0
  ends : ∀ line ∈ given, allBlank line = false → line.getLast? ≠ some '\r'

instance (given : List (List Char)) : Decidable (Upright given) :=
  decidable_of_iff (2 ≤ given.length ∧ (∀ line ∈ given.head?, allBlank line = false) ∧
      (∀ line ∈ given.getLast?, allBlank line = false) ∧
      margin given = some 0 ∧ ∀ line ∈ given, allBlank line = false → line.getLast? ≠ some '\r')
    ⟨fun ⟨several, first, last, flush, ends⟩ => ⟨several, first, last, flush, ends⟩,
      fun ⟨several, first, last, flush, ends⟩ => ⟨several, first, last, flush, ends⟩⟩

theorem allBlank_bareLine (line : List Char) : allBlank (bareLine line) = allBlank line := by
  rw [bareLine]
  split
  · next blank => exact blank.symm
  · rfl

theorem bareLine_bareLine (line : List Char) : bareLine (bareLine line) = bareLine line := by
  rw [bareLine, allBlank_bareLine, bareLine]
  split <;> rfl

theorem trimLines_eq_self_iff {given : List (List Char)} :
    trimLines given = given ↔ (∀ line ∈ given.head?, allBlank line = false) ∧
      ∀ line ∈ given.getLast?, allBlank line = false := by
  have front : given.dropWhile allBlank = given ↔ ∀ line ∈ given.head?, allBlank line = false := by
    cases given with
    | nil => simp
    | cons line rest => simp [List.dropWhile_eq_self_iff]
  have back : given.rdropWhile allBlank = given ↔
      ∀ line ∈ given.getLast?, allBlank line = false := by
    rw [List.rdropWhile_eq_self_iff]
    cases given with
    | nil => simp
    | cons line rest => simp [List.getLast?_eq_getLast_of_ne_nil]
  rw [trimLines_eq, ← front, ← back]
  constructor
  · intro same
    have kept : given.dropWhile allBlank = given := by
      apply (List.dropWhile_suffix allBlank).eq_of_length_le
      have shorter := (List.rdropWhile_prefix allBlank (given.dropWhile allBlank)).length_le
      rwa [same] at shorter
    rw [kept] at same
    exact ⟨kept, same⟩
  · rintro ⟨kept, keptAgain⟩
    rw [kept, keptAgain]

/-- Nothing is taken away but white space of blank lines. -/
theorem Upright.dedent {given : List (List Char)} (upright : Upright given) :
    dedent given = given.map bareLine := by
  rw [BlockString.dedent, trimLines_eq_self_iff.2 ⟨upright.first, upright.last⟩]
  apply List.map_congr_left
  intro line among
  rw [bareLine, dedentLine, upright.flush]
  cases blank : allBlank line with
  | true => rfl
  | false =>
      rw [chop, if_neg (upright.ends line among blank), unindent, unindent?_of_le (Nat.zero_le _),
        dropBytes?_zero]
      rfl

/-- Without a margin every line can be cut. -/
theorem Upright.aligned {given : List (List Char)} (upright : Upright given) : Aligned given :=
  fun _ _ _ => ⟨[], List.nil_prefix, upright.flush⟩

/-! ## Joined lines -/

theorem lines_joinLines {given : List (List Char)} (noFeeds : ∀ line ∈ given, '\n' ∉ line)
    (ends : ∀ line ∈ given, line.getLast? ≠ some '\r') (last : ∀ line ∈ given.getLast?, line ≠ []) :
    lines (joinLines given) = given := by
  fun_induction joinLines given with
  | case1 => rfl
  | case2 line => exact lines_of_noFeed (noFeeds line List.mem_cons_self) (last line rfl)
  | case3 line next rest ih =>
      rw [lines_append_lineFeed (noFeeds line List.mem_cons_self), chop,
        if_neg (ends line List.mem_cons_self),
        ih (fun other later => noFeeds other (List.mem_cons_of_mem _ later))
          (fun other later => ends other (List.mem_cons_of_mem _ later))
          (by rwa [List.getLast?_cons_cons] at last)]

theorem mem_joinLines {given : List (List Char)} {c : Char} (present : c ∈ joinLines given) :
    c = '\n' ∨ ∃ line ∈ given, c ∈ line := by
  fun_induction joinLines given with
  | case1 => cases present
  | case2 line => exact .inr ⟨line, List.mem_cons_self, present⟩
  | case3 line next rest ih =>
      rcases List.mem_append.1 present with first | later
      · exact .inr ⟨line, List.mem_cons_self, first⟩
      · rcases List.mem_cons.1 later with feed | later
        · exact .inl feed
        · refine (ih later).imp_right ?_
          rintro ⟨other, among, inside⟩
          exact ⟨other, List.mem_cons_of_mem _ among, inside⟩

theorem lineFeed_mem_joinLines {given : List (List Char)} (several : 2 ≤ given.length) :
    '\n' ∈ joinLines given := by
  match given, several with
  | line :: next :: rest, _ => exact List.mem_append_right line List.mem_cons_self

theorem Upright.reread_eq {cs : List Char} (upright : Upright (lines cs)) :
    reread cs = joinLines ((lines cs).map bareLine) := by
  rw [reread, upright.dedent]

/-- The lines that are printed are the lines that are read. -/
theorem Upright.lines_reread {cs : List Char} (upright : Upright (lines cs)) :
    lines (reread cs) = (lines cs).map bareLine := by
  rw [upright.reread_eq]
  apply lines_joinLines
  · exact fun _ => lineFeed_not_mem_bareLine
  · intro bare present
    rcases List.mem_map.1 present with ⟨line, isLine, rfl⟩
    rw [bareLine]
    split
    · intro absent
      cases absent
    · next visible => exact upright.ends line isLine (Bool.eq_false_iff.2 visible)
  · intro bare present empty
    rw [List.getLast?_map] at present
    rcases Option.map_eq_some_iff.1 present with ⟨line, isLast, rfl⟩
    have visible := upright.last line isLast
    rw [← allBlank_bareLine, empty] at visible
    cases visible

theorem mem_of_mem_dedent {given : List (List Char)} {line : List Char} {c : Char}
    (among : line ∈ dedent given) (present : c ∈ line) : ∃ original ∈ given, c ∈ original := by
  rcases List.mem_map.1 among with ⟨original, kept, rfl⟩
  refine ⟨original, (trimLines_sublist given).subset kept, ?_⟩
  rw [dedentLine] at present
  split at present
  · cases present
  · exact (isPrefix_chop original).subset ((unindent_suffix _ _).subset present)

theorem mem_of_mem_reread {cs : List Char} {c : Char} (present : c ∈ reread cs) :
    c = '\n' ∨ c ∈ cs := by
  refine (mem_joinLines present).imp_right ?_
  rintro ⟨line, among, inside⟩
  rcases mem_of_mem_dedent among inside with ⟨original, isLine, inside⟩
  exact (mem_of_mem_lines isLine inside).1

theorem Upright.suits_reread {cs : List Char} (upright : Upright (lines cs))
    (suits : BlockString.suits cs = true) : BlockString.suits (reread cs) = true := by
  have all := List.all_eq_true.1 (Bool.and_eq_true_iff.1 suits).2
  refine Bool.and_eq_true_iff.2 ⟨List.contains_iff_mem.2 ?_, List.all_eq_true.2 ?_⟩
  · rw [upright.reread_eq]
    apply lineFeed_mem_joinLines
    rw [List.length_map]
    exact upright.several
  · intro c present
    rcases mem_of_mem_reread present with rfl | old
    · rfl
    · exact all c old

/-- A block string with such lines is printed again as it was. -/
theorem Upright.encode_reread {cs : List Char} (upright : Upright (lines cs)) (indent : Nat) :
    encode indent (reread cs) = encode indent cs := by
  rw [← encode_straighten indent cs, ← encode_straighten indent (reread cs), straighten, straighten,
    upright.lines_reread, List.map_map]
  have again : bareLine ∘ bareLine = bareLine := funext bareLine_bareLine
  rw [again]

/-! ## Lines that are lost

The extent of a text counts the characters of its lines and one end for each. No step of reading
makes it larger, so a text that is printed again as it was has lost nothing in any of them. -/

/-- The characters of the lines and their ends. -/
def extent : List (List Char) → Nat
  | [] => 0
  | line :: rest => line.length + 1 + extent rest

theorem extent_lines_le (cs : List Char) : extent (lines cs) ≤ cs.length + 1 := by
  fun_induction lines cs with
  | case1 => exact Nat.zero_le _
  | case2 cs ih =>
      rw [extent, List.length_cons, List.length_nil]
      omega
  | case3 cs ih =>
      rw [extent, List.length_cons, List.length_cons, List.length_nil]
      omega
  | case4 c cs _ _ none ih =>
      rw [extent, extent, List.length_cons, List.length_cons, List.length_nil]
      omega
  | case5 c cs _ _ line rest found ih =>
      rw [found, extent] at ih
      rw [extent, List.length_cons, List.length_cons]
      omega

theorem length_joinLines {given : List (List Char)} (nonempty : given ≠ []) :
    (joinLines given).length + 1 = extent given := by
  fun_induction joinLines given with
  | case1 => exact absurd rfl nonempty
  | case2 line => rfl
  | case3 line next rest ih =>
      rw [extent, ← ih (List.cons_ne_nil next rest), List.length_append, List.length_cons]
      omega

theorem extent_lines_joinLines_le (given : List (List Char)) :
    extent (lines (joinLines given)) ≤ extent given := by
  cases given with
  | nil => exact Nat.le_refl _
  | cons line rest =>
      rw [← length_joinLines (List.cons_ne_nil line rest)]
      exact extent_lines_le _

theorem extent_le_of_sublist {some all : List (List Char)} (sublist : some.Sublist all) :
    extent some ≤ extent all := by
  induction sublist with
  | slnil => exact Nat.le_refl _
  | cons line _ ih =>
      rw [extent]
      exact Nat.le_add_left_of_le ih
  | cons_cons line _ ih =>
      rw [extent, extent]
      exact Nat.add_le_add_left ih _

theorem eq_of_extent_of_sublist {some all : List (List Char)} (sublist : some.Sublist all)
    (same : extent some = extent all) : some = all := by
  induction sublist with
  | slnil => rfl
  | cons line shorter ih =>
      have smaller := extent_le_of_sublist shorter
      rw [extent] at same
      omega
  | cons_cons line shorter ih =>
      rw [extent, extent] at same
      rw [ih (Nat.add_left_cancel same)]

variable {given : List (List Char)} {change other : List Char → List Char}

theorem extent_map_le (shorter : ∀ line ∈ given, (change line).length ≤ (other line).length) :
    extent (given.map change) ≤ extent (given.map other) := by
  induction given with
  | nil => exact Nat.le_refl _
  | cons line rest ih =>
      rw [List.forall_mem_cons] at shorter
      have later := ih shorter.2
      rw [List.map_cons, List.map_cons, extent, extent]
      omega

theorem length_eq_of_extent_map
    (shorter : ∀ line ∈ given, (change line).length ≤ (other line).length)
    (same : extent (given.map change) = extent (given.map other)) :
    ∀ line ∈ given, (change line).length = (other line).length := by
  induction given with
  | nil => exact fun _ absent => (nomatch absent)
  | cons line rest ih =>
      rw [List.forall_mem_cons] at shorter ⊢
      have later := extent_map_le shorter.2
      rw [List.map_cons, List.map_cons, extent, extent] at same
      exact ⟨by omega, ih shorter.2 (by omega)⟩

theorem length_bareLine_le (line : List Char) : (bareLine line).length ≤ line.length := by
  rw [bareLine]
  split
  · exact Nat.zero_le _
  · exact Nat.le_refl _

theorem getLast?_of_chop_eq_self {line : List Char} (same : chop line = line) :
    line.getLast? ≠ some '\r' := by
  intro ended
  rw [chop, if_pos ended] at same
  have length := congrArg List.length same
  rw [List.length_dropLast] at length
  cases line with
  | nil => cases ended
  | cons c line =>
      rw [List.length_cons] at length
      omega

theorem eq_zero_of_unindent_eq_self {n : Nat} {line : List Char} (nonempty : line ≠ [])
    (indented : n ≤ indentation line) (same : unindent (some n) line = line) : n = 0 := by
  rw [unindent, unindent?_of_le indented] at same
  cases cut : dropBytes? n line with
  | none =>
      rw [cut] at same
      exact absurd same.symm nonempty
  | some rest =>
      rw [cut] at same
      cases same
      rcases dropBytes?_eq_some.1 cut with ⟨front, whole, size⟩
      rw [List.self_eq_append_left.1 whole] at size
      exact size.symm

theorem exists_of_margin {n : Nat} (least : margin given = some n) :
    ∃ line ∈ given, allBlank line = false ∧ indentation line = n := by
  rcases List.mem_map.1 (List.min?_eq_some_iff.1 least).1 with ⟨line, among, same⟩
  have ⟨isLine, visible⟩ := List.mem_filter.1 among
  exact ⟨line, isLine, by simpa using visible, same⟩

theorem length_dedentLine_le (common : Option Nat) (line : List Char) :
    (dedentLine common line).length ≤ (bareLine line).length := by
  rw [dedentLine, bareLine]
  split
  · exact Nat.le_refl _
  · exact Nat.le_trans (unindent_suffix _ _).length_le (isPrefix_chop line).length_le

theorem eq_self_of_length_dedentLine {common : Option Nat} {line : List Char}
    (visible : allBlank line = false)
    (same : (dedentLine common line).length = (bareLine line).length) :
    chop line = line ∧ unindent common line = line := by
  rw [dedentLine, bareLine, if_neg (by simp [visible]), if_neg (by simp [visible])] at same
  have chopped := (isPrefix_chop line).length_le
  have unindented := (unindent_suffix common (chop line)).length_le
  have kept : chop line = line := (isPrefix_chop line).eq_of_length (by omega)
  rw [kept] at same
  exact ⟨kept, (unindent_suffix common line).eq_of_length same⟩

/-- Leaving out lines and cutting the others makes the extent no larger. -/
theorem extent_dedent_le (given : List (List Char)) :
    extent (dedent given) ≤ extent ((trimLines given).map bareLine) ∧
      extent ((trimLines given).map bareLine) ≤ extent (given.map bareLine) :=
  ⟨extent_map_le fun line _ => length_dedentLine_le _ line,
    extent_le_of_sublist ((trimLines_sublist given).map bareLine)⟩

/-- What is printed again as it was has kept its extent. -/
theorem le_extent_dedent {cs : List Char}
    (same : (lines (reread cs)).map bareLine = (lines cs).map bareLine) :
    extent ((lines cs).map bareLine) ≤ extent (dedent (lines cs)) := by
  have bare : extent ((lines (reread cs)).map bareLine) ≤ extent ((lines (reread cs)).map id) :=
    extent_map_le fun line _ => length_bareLine_le line
  rw [same, List.map_id] at bare
  exact Nat.le_trans bare (extent_lines_joinLines_le _)

theorem two_le_length_of_feed {cs : List Char} (feed : '\n' ∈ reread cs) :
    2 ≤ (lines cs).length := by
  have fewer : (dedent (lines cs)).length ≤ (lines cs).length := by
    rw [dedent, List.length_map]
    exact (trimLines_sublist _).length_le
  rw [reread] at feed
  rcases held : dedent (lines cs) with _ | ⟨line, _ | ⟨next, rest⟩⟩
  · rw [held] at feed
    cases feed
  · rw [held] at feed
    have among : line ∈ dedent (lines cs) := held ▸ List.mem_singleton_self line
    rcases mem_of_mem_dedent among feed with ⟨original, isLine, inside⟩
    exact absurd rfl (mem_of_mem_lines isLine inside).2
  · rw [held, List.length_cons, List.length_cons] at fewer
    omega

/-- Lines that are printed again as they were have lost nothing. -/
theorem upright_of_lines_reread {cs : List Char} (feed : '\n' ∈ reread cs)
    (same : (lines (reread cs)).map bareLine = (lines cs).map bareLine) :
    Upright (lines cs) := by
  rcases extent_dedent_le (lines cs) with ⟨cuts, trims⟩
  have keeps := le_extent_dedent same
  have sameLines : (trimLines (lines cs)).map bareLine = (lines cs).map bareLine :=
    eq_of_extent_of_sublist ((trimLines_sublist _).map bareLine) (by omega)
  have trimmed : trimLines (lines cs) = lines cs :=
    (trimLines_sublist _).eq_of_length (by simpa using congrArg List.length sameLines)
  rw [dedent, trimmed] at cuts keeps
  have lengths : ∀ line ∈ lines cs,
      (dedentLine (margin (lines cs)) line).length = (bareLine line).length :=
    length_eq_of_extent_map (fun line _ => length_dedentLine_le _ line) (Nat.le_antisymm cuts keeps)
  have kept : ∀ line ∈ lines cs, allBlank line = false →
      chop line = line ∧ unindent (margin (lines cs)) line = line :=
    fun line isLine visible => eq_self_of_length_dedentLine visible (lengths line isLine)
  have several := two_le_length_of_feed feed
  rcases trimLines_eq_self_iff.1 trimmed with ⟨first, last⟩
  refine ⟨several, first, last, ?_, ?_⟩
  · have nonempty : lines cs ≠ [] := List.length_pos_iff.1 (by omega)
    have visible := first _ (List.head?_eq_some_head nonempty)
    rcases exists_margin (List.head_mem nonempty) visible with ⟨n, least, _⟩
    rcases exists_of_margin least with ⟨line, isLine, visible, indented⟩
    have unchanged := (kept line isLine visible).2
    have lineNonempty : line ≠ [] := by
      rintro rfl
      cases visible
    rw [least] at unchanged ⊢
    rw [eq_zero_of_unindent_eq_self lineNonempty (Nat.le_of_eq indented.symm) unchanged]
  · exact fun line isLine visible => getLast?_of_chop_eq_self (kept line isLine visible).1

/-- A block string is printed again as it was exactly if its lines are kept. -/
theorem encode_reread {cs : List Char} (suits : BlockString.suits cs = true) (indent : Nat) :
    BlockString.suits (reread cs) = true ∧ encode indent (reread cs) = encode indent cs ↔
      Upright (lines cs) := by
  constructor
  · rintro ⟨suitsAgain, same⟩
    apply upright_of_lines_reread (List.contains_iff_mem.1 (Bool.and_eq_true_iff.1 suitsAgain).1)
    rw [← lines_straighten, ← lines_straighten, straighten_of_encode same]
  · exact fun upright => ⟨upright.suits_reread suits, upright.encode_reread indent⟩

end BlockString

/-! ## Both forms -/

/-- A string whose printed form reads as a string that is printed in the same way. -/
def IsSettled (s : String) : Prop :=
  if BlockString.suits s.toList then BlockString.Upright (Text.lines s.toList)
  else ∀ c ∈ s.toList, QuotedString.keeps c = true

instance (s : String) : Decidable (IsSettled s) :=
  decidable_of_iff (if BlockString.suits s.toList then BlockString.Upright (Text.lines s.toList)
      else s.toList.all QuotedString.keeps = true)
    (by simp only [IsSettled, List.all_eq_true])

/-- A string that has a text again after it has been printed: if it is written as a block string,
its margin ends between two characters of every visible line. -/
def IsReadable (s : String) : Prop :=
  BlockString.suits s.toList = true → BlockString.Aligned (Text.lines s.toList)

instance (s : String) : Decidable (IsReadable s) :=
  inferInstanceAs (Decidable (
    BlockString.suits s.toList = true → BlockString.Aligned (Text.lines s.toList)))

theorem IsSettled.isReadable {s : String} (settled : IsSettled s) : IsReadable s := by
  intro suits
  rw [IsSettled, if_pos suits] at settled
  exact settled.aligned

/-- These are the strings that are not torn, whatever the indentation at which they are printed. -/
theorem rereadString?_eq_none_iff {indent : Nat} {s : String} :
    rereadString? indent s = none ↔ ¬IsReadable s := by
  rw [rereadString?, IsReadable]
  split
  · next suits =>
      by_cases aligned : BlockString.Aligned (Text.lines s.toList)
      · simp [BlockString.decode?_blockBody_of_aligned aligned, suits, aligned]
      · simp [BlockString.decode?_blockBody_of_not_aligned aligned, suits, aligned]
  · next oneLine => simp [oneLine]

theorem stringChars_empty_ne {s : String} (suits : BlockString.suits s.toList = true)
    (indent : Nat) : stringChars indent "" ≠ stringChars indent s := by
  rw [stringChars, stringChars, if_pos suits]
  exact fun same => encode_ne_encode indent _ _ same.symm

/-- The settled strings are those that are printed again as they were. -/
theorem stringChars_rereadString {indent : Nat} {s : String} :
    stringChars indent (rereadString indent s) = stringChars indent s ↔ IsSettled s := by
  by_cases suits : BlockString.suits s.toList = true
  · by_cases aligned : BlockString.Aligned (Text.lines s.toList)
    · rw [IsSettled, if_pos suits, rereadString, rereadString?, if_pos suits,
        BlockString.decode?_blockBody_of_aligned aligned, Option.map_some, Option.getD_some,
        stringChars, stringChars, if_pos suits, String.toList_ofList,
        ← BlockString.encode_reread suits indent]
      split
      · next block => exact (and_iff_right block).symm
      · next oneLine =>
          refine iff_of_false (fun same => ?_) fun both => oneLine both.1
          exact encode_ne_encode indent _ _ same.symm
    · rw [rereadString, rereadString?, if_pos suits,
        BlockString.decode?_blockBody_of_not_aligned aligned]
      refine iff_of_false (stringChars_empty_ne suits indent) fun settled => ?_
      exact aligned (settled.isReadable suits)
  · rw [IsSettled, if_neg suits, rereadString, rereadString?, if_neg suits, Option.getD_some,
      stringChars, stringChars, if_neg suits, String.toList_ofList, ← QuotedString.encode_reread]
    split
    · next block =>
        refine iff_of_false (encode_ne_encode indent _ _) fun same => suits ?_
        rwa [QuotedString.reread_of_keeps (QuotedString.encode_reread.1 same)] at block
    · simp [QuotedString.encode]

example : IsSettled "a\n  b" := by decide +kernel

/-- A single line comes back without its line feed and is printed in quotes. -/
example : ¬IsSettled "a\n" := by decide +kernel

/-- The margin of one byte ends inside the ideographic space, which has three. -/
example : ¬IsReadable " a\n\u3000b" := by decide +kernel

end PersistedDocuments.GraphQL
