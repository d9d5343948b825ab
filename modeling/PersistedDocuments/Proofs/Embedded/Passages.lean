import Mathlib
import PersistedDocuments.Proofs.Embedded.Literals
import PersistedDocuments.Proofs.Embedded.Placeholders

/-!
# Literals that code writes

Code in which backticks stand around the bodies of tagged literals only is a row of passages: code
that ends in a tag and white space, and a body between backticks. If no empty body has a passage
behind it, then the bodies that are found are the ones that are written, but for an empty one at the
end. Otherwise the backtick behind the empty body is taken for the first character of a body, and
the code up to the next literal for the rest of it.
-/

namespace PersistedDocuments.Embedded

open Text

/-- A literal in code: the code in front of its tag, the white space behind the tag, and its body,
all without backticks. -/
structure Passage where
  code : List Char
  gap : List Char
  body : List Char
  code_plain : backtick ∉ code
  gap_blank : ∀ c ∈ gap, isBlank c = true
  body_plain : backtick ∉ body

def Passage.chars (tag : List Char) (passage : Passage) : List Char :=
  passage.code ++ (tag ++ (passage.gap ++ backtick :: (passage.body ++ [backtick])))

/-- Passages one behind the other, and more code behind the last. -/
def written (tag : List Char) (passages : List Passage) (after : List Char) : List Char :=
  passages.flatMap (Passage.chars tag) ++ after

/-- The bodies in the passages that are not empty. -/
def fullBodies (passages : List Passage) : List (List Char) :=
  (passages.map Passage.body).filter (· ≠ [])

variable {tag cs code gap body rest after : List Char} {c : Char} {passage next : Passage}
  {passages : List Passage}

/-! ## Steps of the search -/

theorem literals_cons_of_none (absent : literal? tag (c :: cs) = none) :
    literals tag (c :: cs) = literals tag cs := by
  rw [literals]
  split
  · next found =>
      rw [absent] at found
      cases found
  · rfl

theorem literals_chars_append (tag rest : List Char) (literal : Literal) :
    literals tag (literal.chars tag ++ rest) = literal.body :: literals tag rest := by
  have found : literal? tag (literal.chars tag ++ rest) = some (literal.body, rest) :=
    literal?_eq_some_iff.2 ⟨literal, rfl, rfl⟩
  cases same : literal.chars tag ++ rest with
  | nil => simp [Literal.chars] at same
  | cons c cs =>
      rw [same] at found
      rw [literals]
      split
      · next also =>
          rw [found] at also
          cases also
          rfl
      · next absent =>
          rw [found] at absent
          cases absent

theorem literals_eq_nil (absent : ∀ literal : Literal, ¬ literal.chars tag <:+: cs) :
    literals tag cs = [] := by
  induction cs with
  | nil => rw [literals]
  | cons c cs ih =>
      have later : literals tag cs = [] := ih fun literal inside =>
        absent literal (List.infix_cons_iff.2 (.inr inside))
      cases found : literal? tag (c :: cs) with
      | none => rw [literals_cons_of_none found, later]
      | some pair =>
          rcases literal?_eq_some_iff.1 found with ⟨literal, _, same⟩
          exact absurd ⟨[], pair.2, same.symm⟩ (absent literal)

/-- A literal holds two backticks. -/
theorem two_le_count (tag : List Char) (literal : Literal) :
    2 ≤ (literal.chars tag).count backtick := by
  simp only [Literal.chars, List.count_append, List.count_cons_self]
  omega

theorem literals_of_plain (plain : backtick ∉ cs) : literals tag cs = [] := by
  apply literals_eq_nil
  intro literal inside
  have few := inside.sublist.count_le backtick
  rw [List.count_eq_zero.2 plain] at few
  have := two_le_count tag literal
  omega

theorem backtick_not_mem_opening (codePlain : backtick ∉ code) (tagPlain : backtick ∉ tag)
    (blank : ∀ c ∈ gap, isBlank c = true) : backtick ∉ code ++ (tag ++ gap) := by
  simp [codePlain, tagPlain, backtick_not_mem_of_blank blank]

/-- Behind the same characters without a backtick, two literals with one tag have the same body and
the same text behind them. -/
theorem body_eq_of_plain {literal other : Literal} {behind : List Char} (tagPlain : backtick ∉ tag)
    (codePlain : backtick ∉ code)
    (same : code ++ (literal.chars tag ++ rest) = other.chars tag ++ behind) :
    literal.body = other.body ∧ rest = behind := by
  have front := backtick_not_mem_opening codePlain tagPlain literal.gap_blank
  have otherFront : backtick ∉ tag ++ other.gap :=
    backtick_not_mem_opening List.not_mem_nil tagPlain other.gap_blank
  rw [Literal.chars_append, Literal.chars_append, ← List.append_assoc tag, ← List.append_assoc tag,
    ← List.append_assoc code] at same
  have ⟨firsts, tails⟩ := List.cons.inj (append_cons_inj front otherFront same).2
  have ⟨mores, rests⟩ := append_cons_inj literal.more_plain other.more_plain tails
  exact ⟨congrArg₂ List.cons firsts mores, rests⟩

/-- Behind code without a backtick the first literal is found. -/
theorem literals_code_append (tagPlain : backtick ∉ tag) (codePlain : backtick ∉ code)
    (rest : List Char) (literal : Literal) :
    literals tag (code ++ (literal.chars tag ++ rest)) = literal.body :: literals tag rest := by
  induction code with
  | nil => exact literals_chars_append tag rest literal
  | cons c code ih =>
      cases found : literal? tag (c :: (code ++ (literal.chars tag ++ rest))) with
      | none =>
          have later : backtick ∉ code := fun present => codePlain (List.mem_cons_of_mem c present)
          exact (literals_cons_of_none found).trans (ih later)
      | some pair =>
          -- an earlier start leads to the same backtick, and so to the same body
          rcases literal?_eq_some_iff.1 found with ⟨other, _, same⟩
          rcases body_eq_of_plain tagPlain codePlain same with ⟨bodies, rests⟩
          rw [List.cons_append, same, literals_chars_append, bodies, rests]

/-! ## Passages -/

theorem written_cons (tag : List Char) (passage : Passage) (passages : List Passage)
    (after : List Char) :
    written tag (passage :: passages) after =
      passage.chars tag ++ written tag passages after := by
  rw [written, written, List.flatMap_cons, List.append_assoc]

theorem literals_passage (tagPlain : backtick ∉ tag) (full : passage.body ≠ [])
    (rest : List Char) :
    literals tag (passage.chars tag ++ rest) = passage.body :: literals tag rest := by
  rcases List.exists_cons_of_ne_nil full with ⟨first, more, same⟩
  have plain : backtick ∉ more := fun present =>
    passage.body_plain (same ▸ List.mem_cons_of_mem first present)
  let literal : Literal := ⟨passage.gap, first, more, passage.gap_blank, plain⟩
  have shape : passage.chars tag ++ rest = passage.code ++ (literal.chars tag ++ rest) := by
    simp [Passage.chars, Literal.chars, Literal.body, literal, same]
  rw [shape, literals_code_append tagPlain passage.code_plain, same]
  rfl

/-- The backtick behind an empty body is taken for the first character of a body. -/
theorem literals_empty_passage (tagPlain : backtick ∉ tag) (empty : passage.body = [])
    (next : Passage) (rest : List Char) :
    ∃ found, literals tag (passage.chars tag ++ (next.chars tag ++ rest)) =
      (backtick :: (next.code ++ (tag ++ next.gap))) :: found := by
  have plain := backtick_not_mem_opening next.code_plain tagPlain next.gap_blank
  let literal : Literal := ⟨passage.gap, backtick, _, passage.gap_blank, plain⟩
  have shape : passage.chars tag ++ (next.chars tag ++ rest) =
      passage.code ++ (literal.chars tag ++ (next.body ++ backtick :: rest)) := by
    simp [Passage.chars, Literal.chars, Literal.body, literal, empty]
  exact ⟨_, shape ▸ literals_code_append tagPlain passage.code_plain _ literal⟩

/-- Behind the last empty body no backtick is left to close a literal. -/
theorem literals_last_empty (tagPlain : backtick ∉ tag) (afterPlain : backtick ∉ after)
    (empty : passage.body = []) : literals tag (passage.chars tag ++ after) = [] := by
  have front := backtick_not_mem_opening passage.code_plain tagPlain passage.gap_blank
  have shape : passage.chars tag ++ after =
      (passage.code ++ (tag ++ passage.gap)) ++ backtick :: backtick :: after := by
    simp [Passage.chars, empty]
  apply literals_eq_nil
  rintro literal ⟨before, rest, same⟩
  rw [shape, List.append_assoc] at same
  -- the literal has both backticks, so none stands in front of it
  have few : (before ++ (literal.chars tag ++ rest)).count backtick = 2 := by
    rw [same, List.count_append, List.count_cons_self, List.count_cons_self,
      List.count_eq_zero.2 front, List.count_eq_zero.2 afterPlain]
  rw [List.count_append, List.count_append] at few
  have many := two_le_count tag literal
  have beforePlain : backtick ∉ before := List.count_eq_zero.1 (by omega)
  rw [Literal.chars_append, ← List.append_assoc tag, ← List.append_assoc before] at same
  have opening := backtick_not_mem_opening beforePlain tagPlain literal.gap_blank
  have tails := (List.cons.inj (append_cons_inj opening front same).2).2
  exact afterPlain (tails ▸ List.mem_append_right _ List.mem_cons_self)

/-! ## Rows of passages -/

theorem literals_written (tagPlain : backtick ∉ tag) (afterPlain : backtick ∉ after)
    (full : ∀ passage ∈ passages.dropLast, passage.body ≠ []) :
    literals tag (written tag passages after) = fullBodies passages := by
  induction passages with
  | nil => exact literals_of_plain afterPlain
  | cons passage rest ih =>
      rw [written_cons, fullBodies, List.map_cons]
      by_cases empty : passage.body = []
      · -- an empty body is the last one
        cases rest with
        | nil =>
            rw [empty]
            exact literals_last_empty tagPlain afterPlain empty
        | cons next rest => exact absurd empty (full passage List.mem_cons_self)
      · have later : ∀ passage ∈ rest.dropLast, passage.body ≠ [] := by
          cases rest with
          | nil => nofun
          | cons next rest => exact fun other present => full other (List.mem_cons_of_mem _ present)
        rw [literals_passage tagPlain empty, ih later, List.filter_cons_of_pos (by simpa using empty)]
        rfl

/-- With another passage behind an empty body, a backtick stands in a body that is found. -/
theorem exists_body_of_empty (tagPlain : backtick ∉ tag)
    (present : passage ∈ passages.dropLast) (empty : passage.body = []) :
    ∃ rest, backtick :: rest ∈ literals tag (written tag passages after) := by
  induction passages with
  | nil => cases present
  | cons first passages ih =>
      cases passages with
      | nil => cases present
      | cons next passages =>
          by_cases alsoEmpty : first.body = []
          · rw [written_cons, written_cons]
            rcases literals_empty_passage tagPlain alsoEmpty next (written tag passages after) with
              ⟨found, same⟩
            exact ⟨_, same ▸ List.mem_cons_self⟩
          · have later : passage ∈ (next :: passages).dropLast := by
              rcases List.mem_cons.1 present with rfl | later
              · exact absurd empty alsoEmpty
              · exact later
            rcases ih later with ⟨rest, among⟩
            rw [written_cons, literals_passage tagPlain alsoEmpty]
            exact ⟨rest, List.mem_cons_of_mem _ among⟩

theorem backtick_not_mem_fullBodies (present : body ∈ fullBodies passages) : backtick ∉ body := by
  rcases List.mem_map.1 (List.mem_filter.1 present).1 with ⟨passage, _, rfl⟩
  exact passage.body_plain

/-- The search finds the bodies that are written and not empty exactly if no passage stands behind
an empty body. -/
theorem literals_written_iff (tagPlain : backtick ∉ tag) (afterPlain : backtick ∉ after) :
    literals tag (written tag passages after) = fullBodies passages ↔
      ∀ passage ∈ passages.dropLast, passage.body ≠ [] := by
  refine ⟨fun same passage present empty => ?_, literals_written tagPlain afterPlain⟩
  rcases exists_body_of_empty tagPlain present empty with ⟨rest, among⟩
  exact backtick_not_mem_fullBodies (same ▸ among) List.mem_cons_self

/-! ## The text of the documents -/

theorem backtick_mem_withoutPlaceholders (rest : List Char) :
    backtick ∈ (withoutPlaceholders (String.ofList (backtick :: rest))).toList := by
  have absent : placeholder? (backtick :: rest) = none := by
    rw [placeholder?]
    intro first inner same
    exact absurd (List.cons.inj same).1 (by decide)
  rw [withoutPlaceholders, String.toList_ofList, String.toList_ofList,
    removePlaceholders_cons_of_none absent]
  exact List.mem_cons_self

theorem backtick_not_mem_withoutPlaceholders (plain : backtick ∉ body) :
    backtick ∉ (withoutPlaceholders (String.ofList body)).toList := by
  rw [withoutPlaceholders, String.toList_ofList, String.toList_ofList]
  exact fun present => plain ((removePlaceholders_sublist body).subset present)

/-- The text of the documents with these bodies. -/
def joined (bodies : List (List Char)) : String :=
  "\n".intercalate ((bodies.map String.ofList).map withoutPlaceholders)

theorem backtick_mem_joined {bodies : List (List Char)} :
    backtick ∈ (joined bodies).toList ↔
      ∃ body ∈ bodies, backtick ∈ (withoutPlaceholders (String.ofList body)).toList := by
  rw [joined, mem_intercalate (by decide), List.map_map]
  simp only [List.mem_map, exists_exists_and_eq_and, Function.comp_apply]

/-- The backtick in a body that is found behind an empty one stays in the text. -/
theorem joined_literals_written_iff (tagPlain : backtick ∉ tag) (afterPlain : backtick ∉ after) :
    joined (literals tag (written tag passages after)) = joined (fullBodies passages) ↔
      ∀ passage ∈ passages.dropLast, passage.body ≠ [] := by
  constructor
  · intro same passage present empty
    rcases exists_body_of_empty tagPlain present empty with ⟨rest, among⟩
    have holds := backtick_mem_joined.2 ⟨_, among, backtick_mem_withoutPlaceholders rest⟩
    rcases backtick_mem_joined.1 (same ▸ holds) with ⟨body, full, present⟩
    exact backtick_not_mem_withoutPlaceholders (backtick_not_mem_fullBodies full) present
  · intro full
    rw [literals_written tagPlain afterPlain full]

theorem embeddedText_eq_ok {code tag : String} {found : List String}
    (same : taggedLiterals code tag = .ok found) :
    embeddedText code tag = .ok ("\n".intercalate (found.map withoutPlaceholders)) := by
  rw [embeddedText, same]
  rfl

/-- Of code that is a row of passages, the search finds the bodies that are not empty, and the text
of its documents is made up of these, exactly if no passage stands behind an empty body. -/
theorem taggedLiterals_written {tag : String} {after : List Char}
    (short : tag.utf8ByteSize ≤ tagLimit) (tagPlain : backtick ∉ tag.toList)
    (afterPlain : backtick ∉ after) (passages : List Passage) :
    let code := String.ofList (written tag.toList passages after)
    let bodies := (fullBodies passages).map String.ofList
    (taggedLiterals code tag = .ok bodies ↔
      ∀ passage ∈ passages.dropLast, passage.body ≠ []) ∧
    (embeddedText code tag = .ok ("\n".intercalate (bodies.map withoutPlaceholders)) ↔
      ∀ passage ∈ passages.dropLast, passage.body ≠ []) := by
  intro code bodies
  have search : taggedLiterals code tag =
      .ok ((literals tag.toList (written tag.toList passages after)).map String.ofList) := by
    rw [taggedLiterals, if_pos short, String.toList_ofList]
  constructor
  · rw [search, Except.ok.injEq, List.map_inj_right fun _ _ => String.ofList_injective]
    exact literals_written_iff tagPlain afterPlain
  · rw [embeddedText_eq_ok search, Except.ok.injEq]
    exact joined_literals_written_iff tagPlain afterPlain

/-- A tag in the code in front of a literal, a placeholder in a body, and an empty body at the
end. -/
theorem taggedLiterals_written_of_placeholder :
    let first : Passage := ⟨"gql + ".toList, [' ', '\n'], "a $\x7bb\x7d c".toList,
      by decide +kernel, List.all_eq_true.1 (by decide), by decide +kernel⟩
    let last : Passage := ⟨[';'], [], [], by decide, nofun, nofun⟩
    let code := "gql + gql \n`a $\x7bb\x7d c`;gql`` gql"
    "gql".utf8ByteSize ≤ tagLimit ∧ backtick ∉ "gql".toList ∧ backtick ∉ " gql".toList ∧
    String.ofList (written "gql".toList [first, last] " gql".toList) = code ∧
    taggedLiterals code "gql" = .ok ["a $\x7bb\x7d c"] ∧
    embeddedText code "gql" = .ok "a  c" := by
  intro first last code
  have short : "gql".utf8ByteSize ≤ tagLimit := by decide
  have tagPlain : backtick ∉ "gql".toList := by decide +kernel
  have afterPlain : backtick ∉ " gql".toList := by decide +kernel
  have shape : String.ofList (written "gql".toList [first, last] " gql".toList) = code := by
    decide +kernel
  have full : ∀ passage ∈ [first, last].dropLast, passage.body ≠ [] := by
    intro passage present
    rw [List.mem_singleton.1 present]
    decide +kernel
  have ⟨search, text⟩ := taggedLiterals_written short tagPlain afterPlain [first, last]
  have left : withoutPlaceholders "a $\x7bb\x7d c" = "a  c" := by cbv
  refine ⟨short, tagPlain, afterPlain, shape, ?_, ?_⟩
  · exact shape ▸ search.2 full
  · exact (shape ▸ text.2 full).trans (congrArg Except.ok left)

/-- Behind an empty literal the code up to the next one is taken for a document, and the document
in the next one is not found. -/
theorem taggedLiterals_written_ne_of_empty :
    let empty : Passage := ⟨[], [], [], nofun, nofun, nofun⟩
    let full : Passage := ⟨[' '], [], ['a'], by decide, nofun, by decide⟩
    let code := "gql`` gql`a`"
    String.ofList (written "gql".toList [empty, full] []) = code ∧
    (fullBodies [empty, full]).map String.ofList = ["a"] ∧
    taggedLiterals code "gql" = .ok ["` gql"] ∧ embeddedText code "gql" = .ok "` gql" ∧
    ¬ taggedLiterals code "gql" = .ok ["a"] ∧ ¬ embeddedText code "gql" = .ok "a" := by
  intro empty full code
  have search : taggedLiterals code "gql" = .ok ["` gql"] := by cbv
  have text : embeddedText code "gql" = .ok "` gql" := by cbv
  refine ⟨by decide +kernel, by decide +kernel, search, text, ?_, ?_⟩
  · rw [search]
    decide +kernel
  · rw [text]
    decide +kernel

end PersistedDocuments.Embedded
