/-!
# Placeholders

A placeholder in a template literal is `${`, at least one character, and the first `}` behind that
character. Placeholders are looked for from left to right and do not overlap.
-/

namespace PersistedDocuments.Embedded

/-- The text behind a placeholder at the front of a text. -/
def placeholder? : List Char → Option (List Char)
  | '$' :: '{' :: _ :: cs =>
    match cs.dropWhile (· ≠ '}') with
    | [] => none
    | _ :: rest => some rest
  | _ => none

theorem length_placeholder?_lt {cs rest : List Char} (h : placeholder? cs = some rest) :
    rest.length < cs.length := by
  unfold placeholder? at h
  split at h
  · next inner =>
    split at h
    · simp at h
    · next found =>
      simp only [Option.some.injEq] at h
      subst h
      have := (List.dropWhile_sublist (l := inner) (· ≠ '}')).length_le
      rw [found] at this
      simp only [List.length_cons] at this ⊢
      omega
  · simp at h

/-- The text without its placeholders. -/
def removePlaceholders (cs : List Char) : List Char :=
  match cs with
  | [] => []
  | c :: rest =>
    match _found : placeholder? (c :: rest) with
    | some behind => removePlaceholders behind
    | none => c :: removePlaceholders rest
termination_by cs.length
decreasing_by
  · exact length_placeholder?_lt _found
  · simp

end PersistedDocuments.Embedded
