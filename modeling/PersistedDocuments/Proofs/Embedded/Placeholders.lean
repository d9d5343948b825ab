import Mathlib
import PersistedDocuments.Embedded.Literal
import PersistedDocuments.Proofs.Embedded.Search
import PersistedDocuments.Proofs.Text.Separator

/-!
# What is left without placeholders

The characters that are left are those outside of the only cover of the text by placeholders. The
pieces that are left could make up a new placeholder, but its `$` and `{` were neighbours in the
text already, unless a placeholder that was taken out stood between them, behind another `$`. And
then the new placeholder began in the text at a place outside of the cover.
-/

namespace PersistedDocuments.Embedded

open Text

/-- What stands between the `${` and the `}` of a placeholder: at least one character, and no `}`
but as the first. -/
@[ext]
structure Placeholder where
  first : Char
  more : List Char
  more_open : '}' ∉ more

def Placeholder.chars (placeholder : Placeholder) : List Char :=
  '$' :: '{' :: placeholder.first :: (placeholder.more ++ ['}'])

theorem Placeholder.chars_append (placeholder : Placeholder) (rest : List Char) :
    placeholder.chars ++ rest =
      '$' :: '{' :: placeholder.first :: (placeholder.more ++ '}' :: rest) := by
  simp [chars]

/-- Placeholders as they are written. -/
def Placeholder.spelling : Spelling Placeholder where
  chars := Placeholder.chars
  chars_ne_nil := by simp [Placeholder.chars]
  unique := by
    intro placeholder other rest behind same
    rw [Placeholder.chars_append, Placeholder.chars_append] at same
    simp only [List.cons.injEq, true_and] at same
    exact Placeholder.ext same.1
      (append_cons_inj placeholder.more_open other.more_open same.2).1

variable {cs rest : List Char} {c : Char}

theorem placeholder?_eq_some_iff : placeholder? cs = some rest ↔
    ∃ placeholder : Placeholder, cs = placeholder.chars ++ rest := by
  constructor
  · intro found
    unfold placeholder? at found
    split at found
    · next first inner =>
        split at found
        · cases found
        · next last =>
            cases found
            rcases eq_append_of_dropWhile_ne last with ⟨plain, same⟩
            refine ⟨⟨first, _, plain⟩, ?_⟩
            rw [Placeholder.chars_append]
            exact congrArg ('$' :: '{' :: first :: ·) same
    · cases found
  · rintro ⟨placeholder, rfl⟩
    rw [Placeholder.chars_append, placeholder?, dropWhile_ne_append placeholder.more_open]

theorem not_prefix_of_placeholder?_eq_none (absent : placeholder? cs = none)
    (placeholder : Placeholder) : ¬ placeholder.chars <+: cs := by
  rintro ⟨rest, same⟩
  have found := placeholder?_eq_some_iff.2 ⟨placeholder, same.symm⟩
  rw [absent] at found
  cases found

/-! ## Taking placeholders out -/

/-- What is left stands outside of a cover. -/
theorem exists_covers_placeholders (cs : List Char) :
    ∃ items, Placeholder.spelling.Covers cs items ∧
      removePlaceholders cs = Placeholder.spelling.outside cs items := by
  fun_induction removePlaceholders cs with
  | case1 => exact ⟨[], Spelling.covers_nil, rfl⟩
  | case2 c cs rest found ih =>
      rcases placeholder?_eq_some_iff.1 found with ⟨placeholder, same⟩
      rcases ih with ⟨items, covers, left⟩
      rw [same, left]
      exact ⟨_, covers.take placeholder, (Spelling.outside_take placeholder rest items).symm⟩
  | case3 c cs absent ih =>
      rcases ih with ⟨items, covers, left⟩
      have none := not_prefix_of_placeholder?_eq_none absent
      rw [left]
      exact ⟨_, covers.skip none, (Spelling.outside_skip none items).symm⟩

theorem removePlaceholders_cons_of_none (absent : placeholder? (c :: cs) = none) :
    removePlaceholders (c :: cs) = c :: removePlaceholders cs := by
  rw [removePlaceholders]
  split
  · next found =>
      rw [absent] at found
      cases found
  · rfl

theorem removePlaceholders_sublist (cs : List Char) : (removePlaceholders cs).Sublist cs := by
  fun_induction removePlaceholders cs with
  | case1 => exact .slnil
  | case2 c cs rest found ih =>
      rcases placeholder?_eq_some_iff.1 found with ⟨placeholder, same⟩
      exact ih.trans (same ▸ List.sublist_append_right ..)
  | case3 c cs absent ih => exact ih.cons_cons c

theorem removePlaceholders_eq_self
    (absent : ∀ placeholder : Placeholder, ¬ placeholder.chars <:+: cs) :
    removePlaceholders cs = cs := by
  induction cs with
  | nil => rw [removePlaceholders]
  | cons c cs ih =>
      cases found : placeholder? (c :: cs) with
      | none =>
          rw [removePlaceholders_cons_of_none found, ih]
          exact fun placeholder inside =>
            absent placeholder (List.infix_cons_iff.2 (.inr inside))
      | some rest =>
          rcases placeholder?_eq_some_iff.1 found with ⟨placeholder, same⟩
          exact absurd ⟨[], rest, same.symm⟩ (absent placeholder)

/-! ## No new placeholders -/

/-- If a placeholder begins what is left from some place on, then one begins the text there, unless
the text goes on with `$` and a placeholder. -/
theorem exists_placeholder?_eq_some (plain : ¬ ['$', '$', '{'] <+: c :: cs)
    {placeholder : Placeholder} (front : placeholder.chars <+: c :: removePlaceholders cs) :
    ∃ rest, placeholder? (c :: cs) = some rest := by
  rcases front with ⟨behind, same⟩
  rw [Placeholder.chars_append] at same
  rcases List.cons.inj same with ⟨rfl, left⟩
  cases cs with
  | nil => simp [removePlaceholders] at left
  | cons d cs =>
      cases next : placeholder? (d :: cs) with
      | some rest =>
          rcases placeholder?_eq_some_iff.1 next with ⟨inner, written⟩
          rw [written, Placeholder.chars_append] at plain
          exact absurd (List.prefix_append ['$', '$', '{'] _) plain
      | none =>
          rw [removePlaceholders_cons_of_none next] at left
          rcases List.cons.inj left with ⟨rfl, inner⟩
          have kept := removePlaceholders_sublist cs
          rw [← inner] at kept
          cases cs with
          | nil => cases kept
          | cons first cs =>
              have closing : '}' ∈ cs := kept.of_cons_cons.subset
                (List.mem_append_right _ List.mem_cons_self)
              rcases List.eq_append_cons_of_mem closing with ⟨more, rest, rfl, more_open⟩
              refine ⟨rest, placeholder?_eq_some_iff.2 ⟨⟨first, more, more_open⟩, ?_⟩⟩
              rw [Placeholder.chars_append]

theorem not_infix_removePlaceholders (plain : ¬ ['$', '$', '{'] <:+: cs)
    (placeholder : Placeholder) : ¬ placeholder.chars <:+: removePlaceholders cs := by
  fun_induction removePlaceholders cs with
  | case1 => simp [Placeholder.chars]
  | case2 c cs rest found ih =>
      rcases placeholder?_eq_some_iff.1 found with ⟨first, same⟩
      rw [same] at plain
      exact ih fun inside => plain (inside.trans (List.suffix_append ..).isInfix)
  | case3 c cs absent ih =>
      intro inside
      rcases List.infix_cons_iff.1 inside with front | later
      · rcases exists_placeholder?_eq_some (fun here => plain here.isInfix) front with ⟨rest, found⟩
        rw [absent] at found
        cases found
      · exact ih (fun here => plain (List.infix_cons_iff.2 (.inr here))) later

/-- What is left of a text is what stands outside of its only cover by placeholders. If `$$` with a
`{` behind it does not occur in the text, then no placeholder is left, and taking placeholders out
again changes nothing. -/
theorem withoutPlaceholders_of_covers (text : String) :
    (∃! items, Placeholder.spelling.Covers text.toList items) ∧
    (∀ items, Placeholder.spelling.Covers text.toList items →
      (withoutPlaceholders text).toList = Placeholder.spelling.outside text.toList items) ∧
    (¬ ['$', '$', '{'] <:+: text.toList →
      (∀ placeholder : Placeholder,
        ¬ placeholder.chars <:+: (withoutPlaceholders text).toList) ∧
      withoutPlaceholders (withoutPlaceholders text) = withoutPlaceholders text) := by
  rcases exists_covers_placeholders text.toList with ⟨items, covers, left⟩
  refine ⟨⟨items, covers, fun _ also => also.eq covers⟩, ?_, ?_⟩
  · intro others also
    cases covers.eq also
    rw [withoutPlaceholders, String.toList_ofList, left]
  · intro plain
    have absent := not_infix_removePlaceholders plain
    rw [withoutPlaceholders, withoutPlaceholders, String.toList_ofList]
    exact ⟨absent, congrArg String.ofList (removePlaceholders_eq_self absent)⟩

/-- The first placeholder has `$` as its first character and ends at the next `}`, the last one is
never closed. -/
theorem withoutPlaceholders_of_covers_of_unclosed :
    let text := "$\x7b$\x7b\x7d\x7d b $\x7b"
    ¬ ['$', '$', '{'] <:+: text.toList ∧
    (∃! items, Placeholder.spelling.Covers text.toList items) ∧
    withoutPlaceholders text = "\x7d b $\x7b" ∧
    (∀ placeholder : Placeholder, ¬ placeholder.chars <:+: (withoutPlaceholders text).toList) ∧
    withoutPlaceholders (withoutPlaceholders text) = withoutPlaceholders text := by
  intro text
  have plain : ¬ ['$', '$', '{'] <:+: text.toList := by decide +kernel
  have ⟨unique, _, stable⟩ := withoutPlaceholders_of_covers text
  exact ⟨plain, unique, by cbv, stable plain⟩

/-- A placeholder that comes about when another one is taken out. -/
example : withoutPlaceholders "$$\x7ba\x7d\x7bb\x7d" = "$\x7bb\x7d" := by cbv

end PersistedDocuments.Embedded
