import PersistedDocuments.Embedded.Placeholder
import PersistedDocuments.Failure
import PersistedDocuments.Text.Blank
import PersistedDocuments.Text.Lines

/-!
# Tagged template literals

Documents stand in application code as template literals behind a tag. A literal is the tag, any
white space, a backtick, a body, and a backtick. The body has at least one character, and only its
first character may itself be a backtick. Literals are looked for from left to right and do not
overlap.
-/

namespace PersistedDocuments.Embedded

open Text

/-- The character around template literals. -/
def backtick : Char := '\x60'

/-- The text behind another at its front. -/
def behind? : List Char → List Char → Option (List Char)
  | [], cs => some cs
  | _ :: _, [] => none
  | t :: tag, c :: cs => if t = c then behind? tag cs else none

/-- The body behind an opening backtick, and the text behind the closing one. -/
def body? : List Char → Option (List Char × List Char)
  | [] => none
  | c :: cs =>
    match cs.dropWhile (· ≠ backtick) with
    | [] => none
    | _ :: rest => some (c :: cs.takeWhile (· ≠ backtick), rest)

/-- The body of a literal at the front of a text, and the text behind the literal. -/
def literal? (tag cs : List Char) : Option (List Char × List Char) := do
  let cs ← behind? tag cs
  match cs.dropWhile isBlank with
  | c :: cs => if c = backtick then body? cs else none
  | [] => none

theorem behind?_eq_some {tag cs rest : List Char} (h : behind? tag cs = some rest) :
    cs = tag ++ rest := by
  fun_induction behind? tag cs <;> simp_all

theorem body?_eq_some {cs body rest : List Char} (h : body? cs = some (body, rest)) :
    cs = body ++ backtick :: rest := by
  unfold body? at h
  split at h
  · simp at h
  · next c cs =>
    split at h
    · simp at h
    · next d rest found =>
      simp only [Option.some.injEq, Prod.mk.injEq] at h
      obtain ⟨rfl, rfl⟩ := h
      have last : d = backtick := by
        have := List.head?_dropWhile_not (· ≠ backtick) cs
        rw [found] at this
        simpa using this
      subst last
      rw [List.cons_append, ← found, List.takeWhile_append_dropWhile]

theorem length_literal?_lt {tag cs body rest : List Char}
    (h : literal? tag cs = some (body, rest)) : rest.length < cs.length := by
  obtain ⟨inner, found, h⟩ := Option.bind_eq_some_iff.1 h
  rw [behind?_eq_some found, List.length_append]
  split at h
  · next c cs blank =>
    split at h
    · have := (List.dropWhile_sublist (l := inner) isBlank).length_le
      rw [blank, body?_eq_some h] at this
      simp only [List.length_cons, List.length_append] at this
      omega
    · simp at h
  · simp at h

/-- The bodies of the literals with the given tag, in the order in which they stand. -/
def literals (tag cs : List Char) : List (List Char) :=
  match cs with
  | [] => []
  | c :: cs =>
    match _found : literal? tag (c :: cs) with
    | some (body, rest) => body :: literals tag rest
    | none => literals tag cs
termination_by cs.length
decreasing_by
  · exact length_literal?_lt _found
  · simp

/-- The most bytes that a tag may have. It stands for the default limit that the regex library sets
to the size of a compiled pattern, in 64-bit builds. -/
def tagLimit : Nat := 327600

/-- The bodies of the literals in the code. -/
def taggedLiterals (code tag : String) : Except Failure (List String) :=
  if tag.utf8ByteSize ≤ tagLimit then .ok ((literals tag.toList code.toList).map String.ofList)
  else .error .tagTooLong

/-- A template literal's body without its placeholders, which stand for fragments that are found
elsewhere. -/
def withoutPlaceholders (body : String) : String := String.ofList (removePlaceholders body.toList)

/-- The documents in the code, a line feed between each two. -/
def embeddedText (code tag : String) : Except Failure String := do
  let bodies ← taggedLiterals code tag
  return "\n".intercalate (bodies.map withoutPlaceholders)

end PersistedDocuments.Embedded
