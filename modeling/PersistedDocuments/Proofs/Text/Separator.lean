import Mathlib.Data.List.Basic
import Mathlib.Data.List.TakeWhile

/-!
# Cutting at a separator

A list falls in one way into a front without a separator and what stands from the separator on.
Joined texts have the characters of all of them and of the separator.
-/

namespace PersistedDocuments.Text

variable {α : Type} [DecidableEq α] {separator : α} {front other rest behind : List α}

theorem takeWhile_ne_append (absent : separator ∉ front) (rest : List α) :
    (front ++ separator :: rest).takeWhile (· ≠ separator) = front := by
  rw [List.takeWhile_append_of_pos, List.takeWhile_cons_of_neg (by simp), List.append_nil]
  intro c present
  exact decide_eq_true fun same => absent (same ▸ present)

theorem dropWhile_ne_append (absent : separator ∉ front) (rest : List α) :
    (front ++ separator :: rest).dropWhile (· ≠ separator) = separator :: rest := by
  rw [List.dropWhile_append_of_pos, List.dropWhile_cons_of_neg (by simp)]
  intro c present
  exact decide_eq_true fun same => absent (same ▸ present)

theorem append_cons_inj (absent : separator ∉ front) (otherAbsent : separator ∉ other)
    (same : front ++ separator :: rest = other ++ separator :: behind) :
    front = other ∧ rest = behind := by
  have fronts := congrArg (List.takeWhile (· ≠ separator)) same
  rw [takeWhile_ne_append absent, takeWhile_ne_append otherAbsent] at fronts
  rw [fronts, List.append_cancel_left_eq] at same
  exact ⟨fronts, (List.cons.inj same).2⟩

/-- What stands from the first separator on begins with it, and none stands in front. -/
theorem eq_append_of_dropWhile_ne {list : List α} {first : α}
    (found : list.dropWhile (· ≠ separator) = first :: rest) :
    separator ∉ list.takeWhile (· ≠ separator) ∧
      list = list.takeWhile (· ≠ separator) ++ separator :: rest := by
  have last : first = separator := by
    have := List.head?_dropWhile_not (· ≠ separator) list
    rw [found] at this
    simpa using this
  rw [last] at found
  refine ⟨fun present => ?_, ?_⟩
  · simpa using List.mem_takeWhile_imp present
  · rw [← found, List.takeWhile_append_dropWhile]

theorem mem_intercalate {c : Char} {between : String} (different : c ∉ between.toList)
    (texts : List String) :
    c ∈ (between.intercalate texts).toList ↔ ∃ text ∈ texts, c ∈ text.toList := by
  induction texts with
  | nil => simp
  | cons text rest ih =>
      cases rest with
      | nil => simp
      | cons next rest =>
          rw [String.intercalate_cons_cons, String.toList_append, String.toList_append,
            List.mem_append, List.mem_append, or_iff_left different, ih,
            List.exists_mem_cons_iff _ text]

end PersistedDocuments.Text
