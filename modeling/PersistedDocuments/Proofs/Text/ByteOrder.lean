import Mathlib.Data.Char
import Mathlib.Data.List.Basic

/-!
# The order of texts is the order of their bytes

Texts compare by the codes of their characters. UTF-8 writes a character as a first byte, which
tells how many bytes follow, and one byte for every six bits that are left. Longer forms begin with
larger bytes, and forms of one length compare like the codes that they stand for, so comparing the
bytes of two texts comes to the same.
-/

namespace PersistedDocuments.Text

/-- The bytes of a text in UTF-8. -/
def bytes (s : String) : List UInt8 := s.toUTF8.data.toList

theorem bytes_eq_flatMap (s : String) : bytes s = s.toList.flatMap String.utf8EncodeChar := by
  have encoded : s.toByteArray = s.toList.utf8Encode := by
    rw [← String.toByteArray_ofList, String.ofList_toList]
  rw [bytes, String.toUTF8, encoded, List.utf8Encode, List.data_toByteArray]

/-! ## Characters -/

variable {m n k : Nat} {s t : List UInt8}

/-- How many bytes follow the first one. -/
def following (code : Nat) : Nat :=
  if code ≤ 127 then 0 else if code ≤ 2047 then 1 else if code ≤ 65535 then 2 else 3

/-- What the first byte holds besides bits of the code. -/
def mark : Nat → Nat
  | 0 => 0
  | 1 => 192
  | 2 => 224
  | _ => 240

/-- What is left of a code without its last so many groups of six bits. -/
def front : Nat → Nat → Nat
  | 0, code => code
  | k + 1, code => front k (code / 64)

/-- The first byte: what is left of the code before the bytes that follow. -/
def lead (code : Nat) : Nat := front (following code) code + mark (following code)

/-- The last so many groups of six bits, each in a byte. -/
def groups : Nat → Nat → List UInt8
  | 0, _ => []
  | k + 1, code => groups k (code / 64) ++ [UInt8.ofNat (code % 64 + 128)]

theorem toNat_lt_limit (c : Char) : c.toNat < 0x110000 := by
  rcases c.valid with low | ⟨_, high⟩
  · exact Nat.lt_trans low (by decide)
  · exact high

theorem utf8EncodeChar_eq (c : Char) :
    String.utf8EncodeChar c = UInt8.ofNat (lead c.toNat) :: groups (following c.toNat) c.toNat := by
  have limit : c.val.toNat < 0x110000 := toNat_lt_limit c
  rw [String.utf8EncodeChar, lead, Char.toNat]
  generalize c.val.toNat = code at limit
  rw [following]
  split
  · simp [front, groups, mark]
  · split
    · have first : code / 64 % 32 = code / 64 := by omega
      simp [front, groups, mark, first]
    · split
      · have first : code / 4096 % 16 = code / 64 / 64 := by omega
        simp [front, groups, mark, first]
      · have first : code / 262144 % 8 = code / 64 / 64 / 64 := by omega
        have second : code / 4096 = code / 64 / 64 := by omega
        simp [front, groups, mark, first, second]

theorem lead_cases (code : Nat) :
    following code = 0 ∧ lead code = code ∧ code ≤ 127 ∨
    following code = 1 ∧ lead code = code / 64 + 192 ∧ 127 < code ∧ code ≤ 2047 ∨
    following code = 2 ∧ lead code = code / 64 / 64 + 224 ∧ 2047 < code ∧ code ≤ 65535 ∨
    following code = 3 ∧ lead code = code / 64 / 64 / 64 + 240 ∧ 65535 < code := by
  rw [lead, following]
  split
  · next short => exact .inl ⟨rfl, rfl, short⟩
  · split
    · next long short => exact .inr (.inl ⟨rfl, rfl, Nat.lt_of_not_le long, short⟩)
    · split
      · next long short => exact .inr (.inr (.inl ⟨rfl, rfl, Nat.lt_of_not_le long, short⟩))
      · next long => exact .inr (.inr (.inr ⟨rfl, rfl, Nat.lt_of_not_le long⟩))

theorem lead_lt (limit : n < 0x110000) : lead n < 256 := by
  rcases lead_cases n with ⟨_, eq, _⟩ | ⟨_, eq, _⟩ | ⟨_, eq, _⟩ | ⟨_, eq, _⟩ <;> omega

/-- First bytes are in the order of the codes, and codes with one first byte have one length. -/
theorem lead_lt_or_eq (less : m < n) (limit : n < 0x110000) :
    lead m < lead n ∨ lead m = lead n ∧ following m = following n := by
  rcases lead_cases m with ⟨left, eq, _⟩ | ⟨left, eq, _⟩ | ⟨left, eq, _⟩ | ⟨left, eq, _⟩
  all_goals
    rcases lead_cases n with ⟨_, eq', _⟩ | ⟨_, eq', _⟩ | ⟨_, eq', _⟩ | ⟨_, eq', _⟩
    all_goals omega

theorem cons_lt_cons (small : n < 256) (less : m < n) :
    UInt8.ofNat m :: s < UInt8.ofNat n :: t := by
  refine List.cons_lt_cons_iff.2 (.inl ?_)
  rw [UInt8.lt_iff_toNat_lt, UInt8.toNat_ofNat', UInt8.toNat_ofNat']
  omega

theorem append_lt_append_iff (common : List UInt8) : common ++ s < common ++ t ↔ s < t := by
  induction common with
  | nil => rfl
  | cons byte common ih => simp [ih]

/-- Codes that agree before their last groups compare like these. -/
theorem groups_append_lt (less : m < n) (same : front k m = front k n) :
    groups k m ++ s < groups k n ++ t := by
  induction k generalizing m n s t with
  | zero => exact absurd same (Nat.ne_of_lt less)
  | succ k ih =>
      rw [groups, groups, List.append_assoc, List.append_assoc]
      by_cases before : m / 64 = n / 64
      · rw [before, append_lt_append_iff]
        exact cons_lt_cons (by omega) (by omega)
      · exact ih (Nat.lt_of_le_of_ne (Nat.div_le_div_right (Nat.le_of_lt less)) before) same

/-- A character with a smaller code is written with smaller bytes, whatever comes behind. -/
theorem utf8EncodeChar_append_lt {c d : Char} (less : c < d) :
    String.utf8EncodeChar c ++ s < String.utf8EncodeChar d ++ t := by
  have limit := toNat_lt_limit d
  have smaller : c.toNat < d.toNat := less
  rw [utf8EncodeChar_eq, utf8EncodeChar_eq, List.cons_append, List.cons_append]
  rcases lead_lt_or_eq smaller limit with first | ⟨sameLead, sameLength⟩
  · exact cons_lt_cons (lead_lt limit) first
  · have sameFront : front (following c.toNat) c.toNat = front (following c.toNat) d.toNat := by
      rw [lead, lead, ← sameLength] at sameLead
      exact Nat.add_right_cancel sameLead
    rw [sameLead, ← sameLength]
    exact List.cons_lt_cons_iff.2 (.inr ⟨rfl, groups_append_lt smaller sameFront⟩)

/-! ## Texts -/

theorem flatMap_utf8EncodeChar_lt_iff {left right : List Char} :
    left.flatMap String.utf8EncodeChar < right.flatMap String.utf8EncodeChar ↔ left < right := by
  induction left generalizing right with
  | nil =>
      cases right with
      | nil => simp
      | cons d right => simp [utf8EncodeChar_eq]
  | cons c left ih =>
      cases right with
      | nil => simp
      | cons d right =>
          rw [List.flatMap_cons, List.flatMap_cons, List.cons_lt_cons_iff]
          rcases lt_trichotomy c d with less | rfl | greater
          · exact iff_of_true (utf8EncodeChar_append_lt less) (.inl less)
          · rw [append_lt_append_iff, ih]
            simp
          · refine iff_of_false (List.lt_asymm (utf8EncodeChar_append_lt greater)) ?_
            rintro (less | ⟨same, _⟩)
            · exact lt_asymm less greater
            · exact ne_of_lt greater same.symm

/-- Comparing texts is comparing their bytes. -/
theorem bytes_lt_bytes_iff {left right : String} : bytes left < bytes right ↔ left < right := by
  rw [bytes_eq_flatMap, bytes_eq_flatMap, flatMap_utf8EncodeChar_lt_iff, String.lt_iff]

theorem bytes_le_bytes_iff {left right : String} : bytes left ≤ bytes right ↔ left ≤ right := by
  rw [← List.not_lt, ← String.not_lt, bytes_lt_bytes_iff]

end PersistedDocuments.Text
