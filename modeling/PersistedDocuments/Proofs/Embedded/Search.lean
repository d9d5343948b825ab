import Mathlib.Data.List.Pairwise

/-!
# What a search from left to right finds

A search looks at the places of a text from left to right, takes an item wherever one begins, and
goes on behind it. What it finds has a description without any search: the items stand in the text
in their order and do not overlap, and no item begins at a place outside of them. The main statement
is that this description fits one list only. The rest are the steps by which a search meets it.
-/

namespace PersistedDocuments.Embedded

variable {α : Type}

/-- How the items of some kind are written: none is empty, and one at most begins a text. -/
structure Spelling (α : Type) where
  chars : α → List Char
  chars_ne_nil (item : α) : chars item ≠ []
  unique {item other : α} {rest behind : List Char} :
    chars item ++ rest = chars other ++ behind → item = other

/-- An item and the place at which it begins. -/
structure Found (α : Type) where
  start : Nat
  item : α

/-- An item behind so many more characters. -/
def Found.shift (n : Nat) (found : Found α) : Found α := { found with start := n + found.start }

namespace Spelling

/-- The place behind an item. -/
def stop (spelling : Spelling α) (found : Found α) : Nat :=
  found.start + (spelling.chars found.item).length

/-- A place lies in an item. -/
def Holds (spelling : Spelling α) (found : Found α) (place : Nat) : Prop :=
  found.start ≤ place ∧ place < spelling.stop found

instance (spelling : Spelling α) (found : Found α) : DecidablePred (spelling.Holds found) :=
  fun _ => inferInstanceAs (Decidable (_ ∧ _))

/-- An item is written in a text at its place. -/
def Stands (spelling : Spelling α) (text : List Char) (found : Found α) : Prop :=
  spelling.chars found.item <+: text.drop found.start

/-- The items stand in the text in their order and do not overlap, and every item of the text begins
in one of them. -/
structure Covers (spelling : Spelling α) (text : List Char) (items : List (Found α)) : Prop where
  stands : ∀ found ∈ items, spelling.Stands text found
  apart : items.Pairwise fun first second => spelling.stop first ≤ second.start
  all : ∀ found, spelling.Stands text found → ∃ cover ∈ items, spelling.Holds cover found.start

/-- The characters of a text that lie in none of the items. -/
def outside (spelling : Spelling α) (text : List Char) (items : List (Found α)) : List Char :=
  (text.zipIdx.filter fun (_, place) => ∀ found ∈ items, ¬ spelling.Holds found place).map Prod.fst

variable {spelling : Spelling α} {text front rest : List Char} {found other : Found α}
  {items others head : List (Found α)} {n place : Nat}

theorem start_lt_stop (spelling : Spelling α) (found : Found α) :
    found.start < spelling.stop found :=
  Nat.lt_add_of_pos_right (List.length_pos_iff.2 (spelling.chars_ne_nil found.item))

/-- At one place stands one item. -/
theorem Stands.eq (stands : spelling.Stands text found) (otherStands : spelling.Stands text other)
    (same : found.start = other.start) : found = other := by
  rcases stands with ⟨rest, here⟩
  rcases otherStands with ⟨behind, there⟩
  rw [← same, ← here] at there
  obtain ⟨start, item⟩ := found
  obtain ⟨otherStart, otherItem⟩ := other
  cases same
  cases spelling.unique there
  rfl

namespace Covers

theorem increasing (covers : spelling.Covers text items) :
    items.Pairwise fun first second => first.start < second.start :=
  covers.apart.imp fun behind => Nat.lt_of_lt_of_le (spelling.start_lt_stop _) behind

theorem nodup (covers : spelling.Covers text items) : items.Nodup :=
  covers.increasing.imp fun less same => Nat.ne_of_lt less (congrArg Found.start same)

/-- Two items that overlap are one. -/
theorem eq_of_holds (covers : spelling.Covers text items) (present : found ∈ items)
    (otherPresent : other ∈ items) (inside : spelling.Holds found other.start) : found = other := by
  by_contra different
  let Separate (first second : Found α) : Prop :=
    spelling.stop first ≤ second.start ∨ spelling.stop second ≤ first.start
  have : Std.Symm Separate := ⟨fun _ _ => Or.symm⟩
  have apart : items.Pairwise Separate := covers.apart.imp .inl
  have separate := apart.forall present otherPresent different
  have := spelling.start_lt_stop other
  have := inside.1
  have := inside.2
  omega

/-- An item is among those of another cover if the two agree on what comes before it. -/
theorem mem_of_mem (covers : spelling.Covers text items) (also : spelling.Covers text others)
    (earlier : ∀ cover : Found α, cover.start < found.start → cover ∈ others → cover ∈ items)
    (present : found ∈ items) : found ∈ others := by
  have stands := covers.stands found present
  rcases also.all found stands with ⟨cover, among, inside⟩
  have same : cover = found := by
    rcases Nat.eq_or_lt_of_le inside.1 with together | before
    · exact (also.stands cover among).eq stands together
    · exact covers.eq_of_holds (earlier cover before among) present inside
  exact same ▸ among

/-- A text has one cover at most. -/
theorem eq (covers : spelling.Covers text items) (also : spelling.Covers text others) :
    items = others := by
  have sameMembers (n : Nat) : ∀ found : Found α, found.start = n →
      (found ∈ items ↔ found ∈ others) := by
    induction n using Nat.strongRecOn with
    | ind n ih =>
        rintro found rfl
        constructor
        · exact covers.mem_of_mem also fun cover before => (ih _ before cover rfl).2
        · exact also.mem_of_mem covers fun cover before => (ih _ before cover rfl).1
  have permuted := (List.perm_ext_iff_of_nodup covers.nodup also.nodup).2
    fun found => sameMembers _ found rfl
  exact permuted.eq_of_pairwise
    (fun _ _ _ _ less greater => absurd greater (Nat.lt_asymm less))
    covers.increasing also.increasing

end Covers

/-! ## The steps of a search -/

theorem stands_shift (front rest : List Char) (found : Found α) :
    spelling.Stands (front ++ rest) (found.shift front.length) ↔ spelling.Stands rest found := by
  rw [Stands, Stands, Found.shift, List.drop_length_add_append]

theorem stop_shift (n : Nat) (found : Found α) :
    spelling.stop (found.shift n) = n + spelling.stop found :=
  Nat.add_assoc ..

theorem holds_shift (n place : Nat) (found : Found α) :
    spelling.Holds (found.shift n) (n + place) ↔ spelling.Holds found place := by
  rw [Holds, Holds, stop_shift, Found.shift, Nat.add_le_add_iff_left, Nat.add_lt_add_iff_left]

/-- Some text stands in front of another one, and its items are those that begin in it. -/
structure Fronts (spelling : Spelling α) (front rest : List Char) (head : List (Found α)) :
    Prop where
  stands : ∀ found ∈ head, spelling.Stands (front ++ rest) found
  apart : head.Pairwise fun first second => spelling.stop first ≤ second.start
  inside : ∀ found ∈ head, spelling.stop found ≤ front.length
  all : ∀ found : Found α, found.start < front.length → spelling.Stands (front ++ rest) found →
    ∃ cover ∈ head, spelling.Holds cover found.start

/-- The cover of a text together with the items of a text in front of it. -/
theorem Fronts.covers (fronts : spelling.Fronts front rest head)
    (covers : spelling.Covers rest items) :
    spelling.Covers (front ++ rest) (head ++ items.map (Found.shift front.length)) where
  stands := by
    intro found present
    rcases List.mem_append.1 present with early | late
    · exact fronts.stands found early
    · rcases List.mem_map.1 late with ⟨behind, among, rfl⟩
      exact (stands_shift ..).2 (covers.stands behind among)
  apart := by
    rw [List.pairwise_append, List.pairwise_map]
    refine ⟨fronts.apart, covers.apart.imp ?_, ?_⟩
    · intro first second apart
      rw [stop_shift]
      exact Nat.add_le_add_left apart _
    · intro first early second late
      rcases List.mem_map.1 late with ⟨behind, _, rfl⟩
      exact Nat.le_trans (fronts.inside first early) (Nat.le_add_right ..)
  all := by
    intro found stands
    by_cases early : found.start < front.length
    · rcases fronts.all found early stands with ⟨cover, among, holds⟩
      exact ⟨cover, List.mem_append_left _ among, holds⟩
    · let behind : Found α := ⟨found.start - front.length, found.item⟩
      have moved : found = behind.shift front.length := by
        rw [Found.shift, Nat.add_sub_cancel' (Nat.le_of_not_lt early)]
      rw [moved, stands_shift] at stands
      rcases covers.all behind stands with ⟨cover, among, holds⟩
      refine ⟨cover.shift front.length, List.mem_append_right _ (List.mem_map_of_mem among), ?_⟩
      rw [moved]
      exact (holds_shift ..).2 holds

/-- The characters outside of the items, with a text in front. -/
theorem Fronts.outside (fronts : spelling.Fronts front rest head) (items : List (Found α)) :
    spelling.outside (front ++ rest) (head ++ items.map (Found.shift front.length)) =
      spelling.outside front head ++ spelling.outside rest items := by
  rw [Spelling.outside, List.zipIdx_append, List.filter_append, List.map_append]
  congr 1
  · rw [Spelling.outside]
    congr 1
    apply List.filter_congr
    rintro ⟨c, place⟩ present
    have inFront : place < front.length := (List.mem_zipIdx' present).1
    rw [decide_eq_decide, List.forall_mem_append]
    refine and_iff_left ?_
    intro found late holds
    rcases List.mem_map.1 late with ⟨behind, _, rfl⟩
    exact absurd (Nat.le_trans (Nat.le_add_right ..) holds.1) (Nat.not_le_of_lt inFront)
  · rw [Spelling.outside, Nat.zero_add, List.zipIdx_eq_map_add, List.filter_map, List.map_map]
    congr 1
    apply List.filter_congr
    rintro ⟨c, place⟩ _
    simp only [Function.comp_apply]
    rw [decide_eq_decide, List.forall_mem_append, List.forall_mem_map]
    simp only [holds_shift]
    refine and_iff_right ?_
    intro found early holds
    have := fronts.inside found early
    have := holds.2
    omega

/-- A character at which no item begins. -/
theorem fronts_char {c : Char} (none : ∀ item, ¬ spelling.chars item <+: c :: rest) :
    spelling.Fronts [c] rest [] where
  stands := nofun
  apart := .nil
  inside := nofun
  all := by
    intro found early stands
    rw [Stands, Nat.lt_one_iff.1 early] at stands
    exact absurd stands (none found.item)

theorem fronts_item (item : α) : spelling.Fronts (spelling.chars item) rest [⟨0, item⟩] where
  stands := by
    intro found present
    cases List.mem_singleton.1 present
    exact List.prefix_append ..
  apart := List.pairwise_singleton ..
  inside := by
    intro found present
    cases List.mem_singleton.1 present
    exact Nat.le_of_eq (Nat.zero_add _)
  all := by
    intro found early _
    exact ⟨_, List.mem_singleton_self _, Nat.zero_le _, by rwa [stop, Nat.zero_add]⟩

theorem covers_nil : spelling.Covers [] [] where
  stands := nofun
  apart := .nil
  all := by
    intro found stands
    rw [Stands, List.drop_nil, List.prefix_nil] at stands
    exact absurd stands (spelling.chars_ne_nil found.item)

theorem Covers.skip {c : Char} (covers : spelling.Covers rest items)
    (none : ∀ item, ¬ spelling.chars item <+: c :: rest) :
    spelling.Covers (c :: rest) (items.map (Found.shift 1)) :=
  (fronts_char none).covers covers

theorem Covers.take (covers : spelling.Covers rest items) (item : α) :
    spelling.Covers (spelling.chars item ++ rest)
      (⟨0, item⟩ :: items.map (Found.shift (spelling.chars item).length)) :=
  (fronts_item item).covers covers

theorem outside_skip {c : Char} (none : ∀ item, ¬ spelling.chars item <+: c :: rest)
    (items : List (Found α)) :
    spelling.outside (c :: rest) (items.map (Found.shift 1)) = c :: spelling.outside rest items :=
  (fronts_char none).outside items

theorem outside_take (item : α) (rest : List Char) (items : List (Found α)) :
    spelling.outside (spelling.chars item ++ rest)
      (⟨0, item⟩ :: items.map (Found.shift (spelling.chars item).length)) =
      spelling.outside rest items := by
  have nothing : spelling.outside (spelling.chars item) [⟨0, item⟩] = [] := by
    rw [outside, List.map_eq_nil_iff, List.filter_eq_nil_iff]
    rintro ⟨c, place⟩ present
    have inside := (List.mem_zipIdx' present).1
    simpa [Holds, stop] using inside
  exact ((fronts_item item).outside items).trans (congrArg (· ++ _) nothing)

end Spelling

end PersistedDocuments.Embedded
