import Mathlib
import PersistedDocuments.Embedded.Literal
import PersistedDocuments.Proofs.Embedded.Search
import PersistedDocuments.Proofs.Text.Separator

/-!
# The literals that are found

A literal with a given tag is determined by the place at which it begins: its white space ends at
the first character that is none, and its body at the first backtick behind the first character.
What is found in a text is its only cover by literals, for every tag and every text.
-/

namespace PersistedDocuments.Embedded

open Text

/-- What stands behind the tag of a literal: white space, and in backticks a body of at least one
character, of which only the first may be a backtick. -/
@[ext]
structure Literal where
  gap : List Char
  first : Char
  more : List Char
  gap_blank : ∀ c ∈ gap, isBlank c = true
  more_plain : backtick ∉ more

namespace Literal

def body (literal : Literal) : List Char := literal.first :: literal.more

/-- A literal as it is written with its tag. -/
def chars (tag : List Char) (literal : Literal) : List Char :=
  tag ++ literal.gap ++ backtick :: (literal.body ++ [backtick])

end Literal

variable {tag cs rest behind body gap : List Char}

theorem isBlank_backtick : isBlank backtick = false := by decide

theorem backtick_not_mem_of_blank (blank : ∀ c ∈ gap, isBlank c = true) : backtick ∉ gap :=
  fun present => Bool.false_ne_true (isBlank_backtick.symm.trans (blank _ present))

theorem Literal.chars_append (tag rest : List Char) (literal : Literal) :
    literal.chars tag ++ rest =
      tag ++ (literal.gap ++ backtick :: literal.first :: (literal.more ++ backtick :: rest)) := by
  simp [chars, body]

/-- Literals with a tag, as they are written. -/
def Literal.spelling (tag : List Char) : Spelling Literal where
  chars := Literal.chars tag
  chars_ne_nil := by simp [Literal.chars]
  unique := by
    intro literal other rest behind same
    rw [Literal.chars_append, Literal.chars_append, List.append_cancel_left_eq] at same
    have ⟨gaps, inner⟩ := append_cons_inj (backtick_not_mem_of_blank literal.gap_blank)
      (backtick_not_mem_of_blank other.gap_blank) same
    have ⟨firsts, tails⟩ := List.cons.inj inner
    exact Literal.ext gaps firsts (append_cons_inj literal.more_plain other.more_plain tails).1

/-! ## Reading a literal -/

theorem behind?_append (tag rest : List Char) : behind? tag (tag ++ rest) = some rest := by
  induction tag with
  | nil => rfl
  | cons t tag ih => simp [behind?, ih]

theorem body?_eq_some_iff : body? cs = some (body, rest) ↔
    ∃ first more, backtick ∉ more ∧ body = first :: more ∧
      cs = first :: (more ++ backtick :: rest) := by
  cases cs with
  | nil => simp [body?]
  | cons c cs =>
      rw [body?]
      constructor
      · intro found
        split at found
        · cases found
        · next last =>
            cases found
            rcases eq_append_of_dropWhile_ne last with ⟨plain, same⟩
            exact ⟨c, _, plain, rfl, congrArg (c :: ·) same⟩
      · rintro ⟨first, more, plain, rfl, same⟩
        cases same
        rw [dropWhile_ne_append plain, takeWhile_ne_append plain]

theorem literal?_eq_some_iff : literal? tag cs = some (body, rest) ↔
    ∃ literal : Literal, literal.body = body ∧ cs = literal.chars tag ++ rest := by
  constructor
  · intro found
    rcases Option.bind_eq_some_iff.1 found with ⟨inner, front, found⟩
    split at found
    · next c cs blank =>
        split at found
        · next same =>
            subst same
            rcases body?_eq_some_iff.1 found with ⟨first, more, plain, rfl, rfl⟩
            refine ⟨⟨inner.takeWhile isBlank, first, more, ?_, plain⟩, rfl, ?_⟩
            · exact fun c present => List.mem_takeWhile_imp present
            · rw [Literal.chars_append, ← blank, List.takeWhile_append_dropWhile]
              exact behind?_eq_some front
        · cases found
    · cases found
  · rintro ⟨literal, rfl, rfl⟩
    rw [Literal.chars_append]
    have last : body? (literal.first :: (literal.more ++ backtick :: rest)) =
        some (literal.body, rest) :=
      body?_eq_some_iff.2 ⟨literal.first, literal.more, literal.more_plain, rfl, rfl⟩
    refine Option.bind_eq_some_iff.2 ⟨_, behind?_append .., ?_⟩
    rw [List.dropWhile_append_of_pos literal.gap_blank,
      List.dropWhile_cons_of_neg (by simp [isBlank_backtick])]
    exact (if_pos rfl).trans last

theorem not_prefix_of_literal?_eq_none (absent : literal? tag cs = none) (literal : Literal) :
    ¬ literal.chars tag <+: cs := by
  rintro ⟨rest, same⟩
  have found := literal?_eq_some_iff.2 ⟨literal, rfl, same.symm⟩
  rw [absent] at found
  cases found

/-! ## Searching for literals -/

/-- The search finds the bodies of a cover. -/
theorem exists_covers (tag cs : List Char) :
    ∃ items, (Literal.spelling tag).Covers cs items ∧
      literals tag cs = items.map fun found => found.item.body := by
  fun_induction literals tag cs with
  | case1 => exact ⟨[], Spelling.covers_nil, rfl⟩
  | case2 c cs body rest found ih =>
      rcases literal?_eq_some_iff.1 found with ⟨literal, rfl, same⟩
      rcases ih with ⟨items, covers, bodies⟩
      rw [same]
      refine ⟨_, covers.take literal, ?_⟩
      rw [bodies, List.map_cons, List.map_map]
      rfl
  | case3 c cs absent ih =>
      rcases ih with ⟨items, covers, bodies⟩
      refine ⟨_, covers.skip (not_prefix_of_literal?_eq_none absent), ?_⟩
      rw [bodies, List.map_map]
      rfl

/-- A text has one cover by the literals with a given tag, and the bodies found in it are those of
the literals in this cover. -/
theorem taggedLiterals_of_covers {tag : String} (short : tag.utf8ByteSize ≤ tagLimit)
    (code : String) :
    (∃! items, (Literal.spelling tag.toList).Covers code.toList items) ∧
    ∀ items, (Literal.spelling tag.toList).Covers code.toList items →
      taggedLiterals code tag = .ok (items.map fun found => String.ofList found.item.body) := by
  rcases exists_covers tag.toList code.toList with ⟨items, covers, bodies⟩
  refine ⟨⟨items, covers, fun _ also => also.eq covers⟩, ?_⟩
  intro others also
  cases covers.eq also
  rw [taggedLiterals, if_pos short, bodies, List.map_map]
  rfl

/-- A tag that overlaps itself, an empty literal whose second backtick is taken for the first
character of its body, and a literal that is never closed. -/
theorem taggedLiterals_of_covers_of_overlap :
    "aa".utf8ByteSize ≤ tagLimit ∧
    ∃ items, (Literal.spelling "aa".toList).Covers "aaa `x`aa`` y`aa`z".toList items ∧
      items.map (fun found => String.ofList found.item.body) = ["x", "` y"] ∧
      taggedLiterals "aaa `x`aa`` y`aa`z" "aa" = .ok ["x", "` y"] := by
  have short : "aa".utf8ByteSize ≤ tagLimit := by decide
  have ⟨⟨items, covers, _⟩, bodies⟩ := taggedLiterals_of_covers short "aaa `x`aa`` y`aa`z"
  have value : taggedLiterals "aaa `x`aa`` y`aa`z" "aa" = .ok ["x", "` y"] := by cbv
  exact ⟨short, items, covers, Except.ok.inj ((bodies items covers).symm.trans value), value⟩

end PersistedDocuments.Embedded
