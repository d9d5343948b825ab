import Mathlib.Data.List.DropRight
import Mathlib.Data.List.Infix
import PersistedDocuments.Proofs.GraphQL.Alike
import PersistedDocuments.Proofs.Outcome

/-!
# What a block string reads as

The printer indents the lines of a block string, and the reader takes the common indentation away
again, together with the blank lines at both ends and the carriage returns before line feeds. Hence
a text comes back with its own common indentation, its margin, taken from it as well, wherever it
has been printed.
-/

namespace PersistedDocuments.GraphQL.BlockString

open Text

/-! ## Line ends -/

/-- The line without a carriage return at its end. -/
def chop (line : List Char) : List Char :=
  if line.getLast? = some '\r' then line.dropLast else line

theorem isPrefix_chop (line : List Char) : chop line <+: line := by
  rw [chop]
  split
  · exact List.dropLast_prefix line
  · exact List.prefix_refl line

theorem chop_cons {c d : Char} (line : List Char) :
    chop (c :: d :: line) = c :: chop (d :: line) := by
  rw [chop, chop, List.getLast?_cons_cons]
  split <;> rfl

/-- A line that a line feed ends is read without a carriage return before it. -/
theorem lines_append_lineFeed {line : List Char} (noFeed : '\n' ∉ line) (rest : List Char) :
    lines (line ++ '\n' :: rest) = chop line :: lines rest := by
  induction line with
  | nil => exact lines_cons_lineFeed rest
  | cons c line ih =>
      have notFeed : c ≠ '\n' := fun same => noFeed (same ▸ List.mem_cons_self)
      have tail := ih fun later => noFeed (List.mem_cons_of_mem _ later)
      cases line with
      | nil =>
          by_cases isReturn : c = '\r'
          · subst isReturn
            rfl
          · have kept : chop [c] = [c] := by simp [chop, isReturn]
            rw [kept, List.cons_append, lines_cons notFeed fun _ same => absurd same isReturn, tail]
            rfl
      | cons d line =>
          rw [List.cons_append, chop_cons, lines_cons notFeed, tail]
          rintro _ _ same
          have feed : d = '\n' := (List.cons.inj same).1
          exact noFeed (feed ▸ List.mem_cons_of_mem _ List.mem_cons_self)

/-- A text without line feeds is one line, or none if it is empty. -/
theorem lines_of_noFeed {line : List Char} (noFeed : '\n' ∉ line) (nonempty : line ≠ []) :
    lines line = [line] := by
  induction line with
  | nil => exact absurd rfl nonempty
  | cons c line ih =>
      have notFeed : c ≠ '\n' := fun same => noFeed (same ▸ List.mem_cons_self)
      have tailNoFeed : '\n' ∉ line := fun later => noFeed (List.mem_cons_of_mem _ later)
      rw [lines_cons notFeed]
      · cases line with
        | nil => rfl
        | cons d line => rw [ih tailNoFeed (List.cons_ne_nil d line)]
      · rintro rest _ rfl
        exact tailNoFeed List.mem_cons_self

theorem lines_flatMap_encodeLine {indent : Nat} {given : List (List Char)}
    (noFeeds : ∀ line ∈ given, '\n' ∉ line) (rest : List Char) :
    lines (given.flatMap (encodeLine indent) ++ rest) =
      given.map (fun line => chop (shownLine indent line)) ++ lines rest := by
  induction given with
  | nil => rfl
  | cons line given ih =>
      have first := lineFeed_not_mem_shownLine (noFeeds line List.mem_cons_self) indent
      rw [List.flatMap_cons, encodeLine_eq, List.append_assoc, List.append_assoc,
        List.singleton_append, lines_append_lineFeed first,
        ih fun other later => noFeeds other (List.mem_cons_of_mem _ later)]
      rfl

/-! ## White space -/

theorem isBlank_of_mem_blanks {n : Nat} {c : Char} (present : c ∈ blanks n) : c = ' ' :=
  List.eq_of_mem_replicate present

theorem allBlank_blanks (n : Nat) : allBlank (blanks n) = true := by
  rw [allBlank, List.all_eq_true]
  intro c present
  rw [isBlank_of_mem_blanks present]
  rfl

theorem allBlank_append (left right : List Char) :
    allBlank (left ++ right) = (allBlank left && allBlank right) := List.all_append

theorem allBlank_chop (line : List Char) : allBlank (chop line) = allBlank line := by
  rw [chop]
  split
  · next ended =>
      have parts := List.dropLast_append_getLast? '\r' ended
      rw [← parts, allBlank_append, List.dropLast_concat]
      exact (Bool.and_true _).symm
  · rfl

theorem escape_cons_of_ne {c : Char} (notQuote : c ≠ '"') (line : List Char) :
    escape (c :: line) = c :: escape line := by
  rw [escape.eq_def]
  split
  · next same => cases same
  · next same => exact absurd (List.cons.inj same).1 notQuote
  · next same => cases same; rfl

theorem getLast?_escape (line : List Char) : (escape line).getLast? = line.getLast? := by
  fun_induction escape line with
  | case1 => rfl
  | case2 rest ih => simp [fence, List.getLast?_cons, ih]
  | case3 c rest notFence ih => simp [List.getLast?_cons, ih]

theorem escape_concat {c : Char} (notQuote : c ≠ '"') (line : List Char) :
    escape (line ++ [c]) = escape line ++ [c] := by
  fun_induction escape line with
  | case1 => exact escape_cons_of_ne notQuote []
  | case2 rest ih =>
      change escape ('"' :: '"' :: '"' :: (rest ++ [c])) = _
      rw [escape, ih]
      rfl
  | case3 d rest notFence ih =>
      rw [List.cons_append, escape, ih]
      · rfl
      · rintro more rfl same
        match rest, same with
        | [], same => cases same
        | [e], same =>
            rcases List.cons.inj same with ⟨_, behind⟩
            exact notQuote (List.cons.inj behind).1
        | e :: f :: rest, same =>
            rcases List.cons.inj same with ⟨rfl, behind⟩
            rcases List.cons.inj behind with ⟨rfl, _⟩
            exact notFence rest rfl rfl

/-- Quotes are escaped in a line as in the line without its carriage return. -/
theorem chop_escape (line : List Char) : chop (escape line) = escape (chop line) := by
  rw [chop, chop, getLast?_escape]
  split
  · next ended =>
      have parts := List.dropLast_append_getLast? '\r' ended
      rw [← parts, escape_concat (by decide), List.dropLast_concat, List.dropLast_concat]
  · rfl

theorem allBlank_escape (line : List Char) : allBlank (escape line) = allBlank line := by
  fun_induction escape line with
  | case1 => rfl
  | case2 rest ih => rfl
  | case3 c rest notFence ih => exact congrArg (isBlank c && ·) ih

theorem ne_of_isBlank {c : Char} (blank : isBlank c = true) : c ≠ '"' := by
  rintro rfl
  cases blank

/-! ## Indentation -/

theorem indentation_cons_of_isBlank {c : Char} (blank : isBlank c = true) (line : List Char) :
    indentation (c :: line) = c.utf8Size + indentation line := by
  rw [indentation, List.takeWhile_cons_of_pos blank, utf8Size, indentation]

theorem indentation_cons_of_not_isBlank {c : Char} (visible : isBlank c = false)
    (line : List Char) : indentation (c :: line) = 0 := by
  rw [indentation, List.takeWhile_cons_of_neg (by simp [visible])]
  rfl

theorem utf8Size_append (front rest : List Char) :
    utf8Size (front ++ rest) = utf8Size front + utf8Size rest := by
  induction front with
  | nil => exact (Nat.zero_add _).symm
  | cons c front ih => rw [List.cons_append, utf8Size, utf8Size, ih, Nat.add_assoc]

/-- Of two beginnings of a line, the one with fewer bytes is a beginning of the other. -/
theorem isPrefix_of_utf8Size_le {front other line : List Char} (begins : front <+: line)
    (otherBegins : other <+: line) (short : utf8Size front ≤ utf8Size other) : front <+: other := by
  rcases List.prefix_or_prefix_of_prefix begins otherBegins with within | ⟨rest, rfl⟩
  · exact within
  · rw [utf8Size_append] at short
    have empty : utf8Size rest = 0 := by omega
    rw [utf8Size_eq_zero.1 empty, List.append_nil]

theorem indentation_le (line : List Char) : indentation line ≤ utf8Size line := by
  induction line with
  | nil => exact Nat.le_refl _
  | cons c line ih =>
      cases blank : isBlank c with
      | true =>
          rw [indentation_cons_of_isBlank blank, utf8Size]
          exact Nat.add_le_add_left ih _
      | false =>
          rw [indentation_cons_of_not_isBlank blank]
          exact Nat.zero_le _

theorem indentation_blanks_append (n : Nat) (line : List Char) :
    indentation (blanks n ++ line) = n + indentation line := by
  induction n with
  | zero => exact (Nat.zero_add _).symm
  | succ n ih =>
      change indentation (' ' :: (blanks n ++ line)) = _
      rw [indentation_cons_of_isBlank rfl, ih]
      change 1 + _ = _
      omega

theorem indentation_escape (line : List Char) : indentation (escape line) = indentation line := by
  fun_induction escape line with
  | case1 => rfl
  | case2 rest ih => rfl
  | case3 c rest notFence ih =>
      cases blank : isBlank c with
      | true => rw [indentation_cons_of_isBlank blank, indentation_cons_of_isBlank blank, ih]
      | false =>
          rw [indentation_cons_of_not_isBlank blank, indentation_cons_of_not_isBlank blank]

theorem indentation_append {line : List Char} (visible : allBlank line = false)
    (more : List Char) : indentation (line ++ more) = indentation line := by
  induction line with
  | nil => cases visible
  | cons c line ih =>
      rw [List.cons_append]
      cases blank : isBlank c with
      | true =>
          rw [indentation_cons_of_isBlank blank, indentation_cons_of_isBlank blank, ih]
          rwa [allBlank, List.all_cons, blank, Bool.true_and] at visible
      | false =>
          rw [indentation_cons_of_not_isBlank blank, indentation_cons_of_not_isBlank blank]

theorem indentation_chop {line : List Char} (visible : allBlank line = false) :
    indentation (chop line) = indentation line := by
  rw [← allBlank_chop] at visible
  revert visible
  rw [chop]
  split
  · next ended =>
      intro visible
      have same := indentation_append visible ['\r']
      rw [List.dropLast_append_getLast? '\r' ended] at same
      exact same.symm
  · exact fun _ => rfl

/-! ## Taking indentation away -/

theorem unindent?_of_le {n : Nat} {line : List Char} (indented : n ≤ indentation line) :
    unindent? (some n) line = dropBytes? n line :=
  if_pos (Nat.le_trans indented (indentation_le line))

theorem unindent?_nil (common : Option Nat) : unindent? common [] = some [] := by
  cases common with
  | none => rfl
  | some n => cases n <;> rfl

theorem dropBytes?_zero (line : List Char) : dropBytes? 0 line = some line := by
  cases line <;> rfl

theorem dropBytes?_blanks_append (n k : Nat) (line : List Char) :
    dropBytes? (n + k) (blanks n ++ line) = dropBytes? k line := by
  induction n with
  | zero => rw [Nat.zero_add]; rfl
  | succ n ih =>
      have bytes : n + 1 + k = n + k + 1 := by omega
      have fits : ' '.utf8Size ≤ n + k + 1 := Nat.le_add_left 1 (n + k)
      change dropBytes? (n + 1 + k) (' ' :: (blanks n ++ line)) = _
      rw [bytes, dropBytes?, if_pos fits, ← ih]
      rfl

theorem dropBytes?_escape {n : Nat} {line : List Char} (indented : n ≤ indentation line) :
    dropBytes? n (escape line) = (dropBytes? n line).map escape := by
  fun_induction dropBytes? n line with
  | case1 line => exact dropBytes?_zero _
  | case2 n => cases indented
  | case3 n c line fits ih =>
      cases blank : isBlank c with
      | true =>
          rw [indentation_cons_of_isBlank blank] at indented
          rw [escape_cons_of_ne (ne_of_isBlank blank), dropBytes?, if_pos fits, ih (by omega)]
      | false =>
          rw [indentation_cons_of_not_isBlank blank] at indented
          cases indented
  | case4 n c line exceeds =>
      cases blank : isBlank c with
      | true => rw [escape_cons_of_ne (ne_of_isBlank blank), dropBytes?, if_neg exceeds]; rfl
      | false =>
          rw [indentation_cons_of_not_isBlank blank] at indented
          cases indented

/-- The line without the common indentation, or nothing if that ends inside a character. -/
def unindent (common : Option Nat) (line : List Char) : List Char :=
  (unindent? common line).getD []

theorem unindent_suffix (common : Option Nat) (line : List Char) :
    unindent common line <:+ line := by
  rw [unindent]
  cases cut : unindent? common line with
  | none => exact List.nil_suffix
  | some rest =>
      unfold unindent? at cut
      split at cut
      · split at cut
        · rcases dropBytes?_eq_some.1 cut with ⟨front, rfl, _⟩
          exact List.suffix_append front rest
        · cases cut
          exact List.suffix_refl _
      · cases cut
        exact List.suffix_refl _

/-! ## Blank lines at the ends -/

theorem trimLines_eq (given : List (List Char)) :
    trimLines given = (given.dropWhile allBlank).rdropWhile allBlank := rfl

theorem rdropWhile_append_of_all {blank : List (List Char)}
    (all : ∀ line ∈ blank, allBlank line = true) (given : List (List Char)) :
    (given ++ blank).rdropWhile allBlank = given.rdropWhile allBlank := by
  have none : blank.reverse.dropWhile allBlank = [] :=
    List.dropWhile_eq_nil_iff.2 fun line present => all line (List.mem_reverse.1 present)
  rw [List.rdropWhile, List.reverse_append, List.dropWhile_append, none]
  rfl

theorem trimLines_append {blank : List (List Char)} (all : ∀ line ∈ blank, allBlank line = true)
    (given : List (List Char)) : trimLines (given ++ blank) = trimLines given := by
  rw [trimLines_eq, trimLines_eq, List.dropWhile_append]
  split
  · next empty =>
      rw [List.isEmpty_iff.1 empty, List.dropWhile_eq_nil_iff.2 all]
  · exact rdropWhile_append_of_all all _

theorem trimLines_map {change : List Char → List Char}
    (same : ∀ line, allBlank (change line) = allBlank line) (given : List (List Char)) :
    trimLines (given.map change) = (trimLines given).map change := by
  have unchanged : allBlank ∘ change = allBlank := funext same
  rw [trimLines, trimEnd, List.dropWhile_map, unchanged, ← List.map_reverse, List.dropWhile_map,
    unchanged, ← List.map_reverse, trimLines, trimEnd]

theorem trimLines_sublist (given : List (List Char)) : (trimLines given).Sublist given :=
  (List.rdropWhile_prefix allBlank _).sublist.trans (List.dropWhile_suffix allBlank).sublist

theorem mem_dropWhile {given : List (List Char)} {line : List Char} (among : line ∈ given)
    (visible : allBlank line = false) : line ∈ given.dropWhile allBlank := by
  rw [← List.takeWhile_append_dropWhile (p := allBlank) (l := given), List.mem_append] at among
  rcases among with blank | kept
  · rw [List.mem_takeWhile_imp blank] at visible
    cases visible
  · exact kept

/-- Only blank lines are left out. -/
theorem mem_trimLines {given : List (List Char)} {line : List Char} (among : line ∈ given)
    (visible : allBlank line = false) : line ∈ trimLines given :=
  List.mem_reverse.2 (mem_dropWhile (List.mem_reverse.2 (mem_dropWhile among visible)) visible)

/-! ## Margins -/

/-- The least indentation among the lines that are not blank, if there are any. -/
def margin (given : List (List Char)) : Option Nat :=
  ((given.filter fun line => !allBlank line).map indentation).min?

/-- The line without the common indentation and without a carriage return at its end, if the
indentation does not end inside a character. -/
def dedentLine? (common : Option Nat) (line : List Char) : Option (List Char) :=
  if allBlank line then some [] else unindent? common (chop line)

/-- The same, with nothing for a line that cannot be cut. -/
def dedentLine (common : Option Nat) (line : List Char) : List Char :=
  if allBlank line then [] else unindent common (chop line)

/-- The lines between the blank ones at both ends, without their margin. -/
def dedent (given : List (List Char)) : List (List Char) :=
  (trimLines given).map (dedentLine (margin given))

theorem min?_map_add (k : Nat) (numbers : List Nat) :
    (numbers.map (k + ·)).min? = numbers.min?.map (k + ·) := by
  induction numbers with
  | nil => rfl
  | cons n rest ih =>
      rw [List.map_cons, List.min?_cons, List.min?_cons, ih]
      cases rest.min? with
      | none => rfl
      | some m => exact congrArg some (Nat.add_min_add_left k n m)

theorem exists_margin {given : List (List Char)} {line : List Char} (among : line ∈ given)
    (visible : allBlank line = false) :
    ∃ n, margin given = some n ∧ n ≤ indentation line := by
  have present : indentation line ∈ (given.filter fun line => !allBlank line).map indentation :=
    List.mem_map_of_mem (List.mem_filter.2 ⟨among, by rw [visible]; rfl⟩)
  cases least : margin given with
  | none =>
      rw [List.min?_eq_none_iff.1 least] at present
      cases present
  | some n => exact ⟨n, rfl, (List.min?_eq_some_iff.1 least).2 _ present⟩

/-- A line as it is found in a printed block string. -/
theorem chop_shownLine {line : List Char} (visible : allBlank line = false) (indent : Nat) :
    chop (shownLine indent line) = blanks (indent + 2) ++ escape (chop line) := by
  have nonempty : escape line ≠ [] := by
    intro empty
    rw [← allBlank_escape, empty] at visible
    cases visible
  rw [shownLine, if_neg (by simp [visible]), ← chop_escape, chop, chop,
    List.getLast?_append_of_ne_nil _ nonempty]
  split
  · exact List.dropLast_append_of_ne_nil nonempty
  · rfl

theorem chop_shownLine_of_blank {line : List Char} (blank : allBlank line = true) (indent : Nat) :
    chop (shownLine indent line) = [] := by
  rw [shownLine, if_pos blank]
  rfl

theorem allBlank_chop_shownLine (indent : Nat) (line : List Char) :
    allBlank (chop (shownLine indent line)) = allBlank line := by
  cases blank : allBlank line with
  | true =>
      rw [chop_shownLine_of_blank blank]
      rfl
  | false =>
      rw [chop_shownLine blank, allBlank_append, allBlank_escape, allBlank_chop, blank,
        Bool.and_false]

/-- The printer moves the margin by the same number of blanks. -/
theorem margin_map_shownLine (indent : Nat) (given : List (List Char)) :
    margin (given.map fun line => chop (shownLine indent line)) =
      (margin given).map (indent + 2 + ·) := by
  rw [margin, margin, ← min?_map_add, List.map_map, List.filter_map, List.map_map]
  congr 1
  have sameLines : ((fun line => !allBlank line) ∘ fun line => chop (shownLine indent line)) =
      fun line => !allBlank line := by
    funext line
    exact congrArg not (allBlank_chop_shownLine indent line)
  rw [sameLines]
  apply List.map_congr_left
  intro line present
  have visible : allBlank line = false := by simpa using (List.mem_filter.1 present).2
  change indentation (chop (shownLine indent line)) = indent + 2 + indentation line
  rw [chop_shownLine visible, indentation_blanks_append, indentation_escape,
    indentation_chop visible]

theorem margin_append {blank : List (List Char)} (all : ∀ line ∈ blank, allBlank line = true)
    (given : List (List Char)) : margin (given ++ blank) = margin given := by
  have none : (blank.filter fun line => !allBlank line) = [] :=
    List.filter_eq_nil_iff.2 fun line present => by simp [all line present]
  rw [margin, List.filter_append, none, List.append_nil, margin]

/-- The margin ends between two characters of every visible line. -/
def Aligned (given : List (List Char)) : Prop :=
  ∀ line ∈ given, allBlank line = false →
    ∃ front, front <+: line ∧ margin given = some (utf8Size front)

instance (given : List (List Char)) : Decidable (Aligned given) :=
  decidable_of_iff (∀ line ∈ given, allBlank line = false →
      ∃ front ∈ line.inits, margin given = some (utf8Size front))
    (by simp only [Aligned, List.mem_inits])

/-- A visible line can be cut exactly if the margin ends between two of its characters. -/
theorem isSome_dedentLine? {given : List (List Char)} {line : List Char} (among : line ∈ given)
    (visible : allBlank line = false) :
    (dedentLine? (margin given) line).isSome ↔
      ∃ front, front <+: line ∧ margin given = some (utf8Size front) := by
  rcases exists_margin among visible with ⟨n, least, indented⟩
  rw [← indentation_chop visible] at indented
  rw [dedentLine?, if_neg (by simp [visible]), least, unindent?_of_le indented,
    Option.isSome_iff_exists]
  simp only [dropBytes?_eq_some, Option.some.injEq]
  constructor
  · rintro ⟨rest, front, same, size⟩
    exact ⟨front, (same ▸ List.prefix_append front rest).trans (isPrefix_chop line), size.symm⟩
  · rintro ⟨front, begins, rfl⟩
    have short := Nat.le_trans indented (indentation_le _)
    rcases isPrefix_of_utf8Size_le begins (isPrefix_chop line) short with ⟨rest, same⟩
    exact ⟨rest, front, same.symm, rfl⟩

theorem Aligned.dedentLine?_eq {given : List (List Char)} {line : List Char}
    (aligned : Aligned given) (among : line ∈ given) :
    dedentLine? (margin given) line = some (dedentLine (margin given) line) := by
  cases blank : allBlank line with
  | true => rw [dedentLine?, dedentLine, if_pos blank, if_pos blank]
  | false =>
      have cut := (isSome_dedentLine? among blank).2 (aligned line among blank)
      rw [dedentLine?, if_neg (by simp [blank])] at cut ⊢
      rw [dedentLine, if_neg (by simp [blank]), unindent]
      rcases Option.isSome_iff_exists.1 cut with ⟨rest, held⟩
      rw [held]
      rfl

theorem exists_dedentLine?_eq_none {given : List (List Char)} (torn : ¬Aligned given) :
    ∃ line ∈ given, allBlank line = false ∧ dedentLine? (margin given) line = none := by
  simp only [Aligned, not_forall] at torn
  rcases torn with ⟨line, among, visible, apart⟩
  rw [← isSome_dedentLine? among visible, Option.not_isSome_iff_eq_none] at apart
  exact ⟨line, among, visible, apart⟩

theorem unindent?_chop_shownLine {given : List (List Char)} {line : List Char}
    (among : line ∈ given) (indent : Nat) :
    unindent? ((margin given).map (indent + 2 + ·)) (chop (shownLine indent line)) =
      (dedentLine? (margin given) line).map escape := by
  rw [dedentLine?]
  cases blank : allBlank line with
  | true =>
      rw [chop_shownLine_of_blank blank, unindent?_nil]
      rfl
  | false =>
      rcases exists_margin among blank with ⟨n, least, indented⟩
      rw [← indentation_chop blank] at indented
      have shifted : indent + 2 + n ≤
          indentation (blanks (indent + 2) ++ escape (chop line)) := by
        rw [indentation_blanks_append, indentation_escape]
        exact Nat.add_le_add_left indented _
      rw [chop_shownLine blank, least, Option.map_some, unindent?_of_le shifted,
        dropBytes?_blanks_append, dropBytes?_escape indented, if_neg Bool.false_ne_true,
        unindent?_of_le indented]

/-! ## The value of a block string -/

theorem lines_blanks {indent : Nat} {line : List Char} (isLine : line ∈ lines (blanks indent)) :
    line = blanks indent := by
  have noFeed : '\n' ∉ blanks indent := fun feed => by cases isBlank_of_mem_blanks feed
  cases indent with
  | zero => cases isLine
  | succ n =>
      rw [lines_of_noFeed noFeed (List.cons_ne_nil _ _)] at isLine
      exact List.mem_singleton.1 isLine

/-- The text without its margin, the blank lines at its ends and the carriage returns at the ends of
its lines. -/
def reread (cs : List Char) : List Char := joinLines (dedent (lines cs))

/-- A printed block string is read line by line: those between the blank ones at both ends are cut,
each as it has been printed. -/
theorem decode?_blockBody (indent : Nat) (cs : List Char) :
    decode? (blockBody indent cs) =
      ((trimLines (lines cs)).mapM (unindent? ((margin (lines cs)).map (indent + 2 + ·)) ∘
        fun line => chop (shownLine indent line))).map
          fun cut => joinLines (cut.map unescape) := by
  have noFeeds : ∀ line ∈ lines cs, '\n' ∉ line :=
    fun _ isLine feed => (mem_of_mem_lines isLine feed).2 rfl
  have body : lines (blockBody indent cs) =
      [] :: ((lines cs).map (fun line => chop (shownLine indent line)) ++ lines (blanks indent))
      := by
    rw [blockBody, List.cons_append, lines_cons_lineFeed, lines_flatMap_encodeLine noFeeds]
  have ending : ∀ line ∈ lines (blanks indent), allBlank line = true := by
    intro line isLine
    rw [lines_blanks isLine]
    exact allBlank_blanks indent
  have common : (((((lines cs).map fun line => chop (shownLine indent line)) ++
      lines (blanks indent)).filter fun line => !allBlank line).map indentation).min? =
      (margin (lines cs)).map (indent + 2 + ·) :=
    (margin_append ending _).trans (margin_map_shownLine indent _)
  rw [decode?, body]
  simp only [common, show allBlank [] = true from rfl, if_true, trimLines_append ending,
    trimLines_map (allBlank_chop_shownLine indent), List.mapM_map]
  exact (map_eq_pure_bind _ _).symm

/-- This is what a block string reads as, wherever it has been printed. -/
theorem decode?_blockBody_of_aligned {cs : List Char} (aligned : Aligned (lines cs))
    (indent : Nat) : decode? (blockBody indent cs) = some (reread cs) := by
  have cuts : ∀ line ∈ trimLines (lines cs),
      (unindent? ((margin (lines cs)).map (indent + 2 + ·)) ∘
        fun line => chop (shownLine indent line)) line =
        some (escape (dedentLine (margin (lines cs)) line)) := by
    intro line kept
    have among := (trimLines_sublist _).subset kept
    refine (unindent?_chop_shownLine among indent).trans ?_
    rw [aligned.dedentLine?_eq among]
    rfl
  rw [decode?_blockBody, mapM_eq_some cuts, Option.map_some, List.map_map, reread, dedent]
  congr 2
  exact List.map_congr_left fun line _ => unescape_escape _

/-- A block string in which the margin ends inside a character is torn, wherever it has been
printed. -/
theorem decode?_blockBody_of_not_aligned {cs : List Char} (torn : ¬Aligned (lines cs))
    (indent : Nat) : decode? (blockBody indent cs) = none := by
  rcases exists_dedentLine?_eq_none torn with ⟨line, among, visible, missing⟩
  have lost : (unindent? ((margin (lines cs)).map (indent + 2 + ·)) ∘
      fun line => chop (shownLine indent line)) line = none := by
    refine (unindent?_chop_shownLine among indent).trans ?_
    rw [missing]
    rfl
  rw [decode?_blockBody, mapM_eq_none (mem_trimLines among visible) lost]
  rfl

end PersistedDocuments.GraphQL.BlockString
