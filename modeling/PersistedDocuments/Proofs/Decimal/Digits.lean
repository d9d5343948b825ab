import PersistedDocuments.Decimal.Basic

/-!
# Decimal digits

Every character of a written number is a digit, only zero begins with a zero, and a run of digits
ends where something else begins.
-/

namespace PersistedDocuments.Decimal

theorem ne_of_isDigit {c other : Char} (digit : c.isDigit = true)
    (notDigit : other.isDigit = false) :
    c ≠ other := by
  rintro rfl
  rw [digit] at notDigit
  cases notDigit

theorem toNat_of_isDigit {c : Char} (digit : c.isDigit = true) : 48 ≤ c.toNat ∧ c.toNat ≤ 57 := by
  simp only [Char.isDigit, Bool.and_eq_true, decide_eq_true_eq] at digit
  exact ⟨UInt32.le_iff_toNat_le.1 digit.1, UInt32.le_iff_toNat_le.1 digit.2⟩

theorem isDigit_of_mem_digitChars {n : Nat} {c : Char} (present : c ∈ digitChars n) :
    c.isDigit = true := Nat.isDigit_of_mem_toDigits (by decide) (by decide) present

/-- Only zero begins with a zero. -/
theorem head_digitChars (n : Nat) :
    ∃ first rest, digitChars n = first :: rest ∧ (first = '0' → rest = []) := by
  induction n using Nat.strongRecOn with
  | ind n ih =>
      by_cases small : n < 10
      · exact ⟨_, [], Nat.toDigits_of_lt_base small, fun _ => rfl⟩
      · have long : 10 ≤ n := Nat.not_lt.1 small
        rcases ih (n / 10) (by omega) with ⟨first, rest, digits, zero⟩
        refine ⟨first, rest ++ [(n % 10).digitChar], ?_, fun isZero => ?_⟩
        · rw [digitChars, Nat.toDigits_of_base_le (by decide) long]
          exact congrArg (· ++ _) digits
        · -- The digits before the last one would stand for zero.
          have value := ofDigitChars_digitChars (n / 10)
          rw [digits, isZero, zero isZero] at value
          have none : ofDigitChars ['0'] = 0 := rfl
          omega

/-- A run of characters up to one that does not belong to it. -/
theorem takeWhile_append_of_stops {belongs : Char → Bool} {cs : List Char} (rest : List Char)
    (all : ∀ c ∈ cs, belongs c = true) (stop : ∀ c, rest.head? = some c → belongs c = false) :
    (cs ++ rest).takeWhile belongs = cs ∧ (cs ++ rest).dropWhile belongs = rest := by
  rw [List.takeWhile_append_of_pos all, List.dropWhile_append_of_pos all]
  cases rest with
  | nil => simp
  | cons c rest => simp [stop c rfl]

end PersistedDocuments.Decimal
