import Mathlib.Data.List.Perm.Subperm
import Mathlib.Order.Bounds.Basic
import PersistedDocuments.Proofs.Manifest.Merge
import PersistedDocuments.Proofs.Store

/-!
# The numbers that a merge gives

A merge keeps every entry of the first manifest and gives the entries that it takes over increasing
numbers, each the least one whose text the first manifest does not use. All numbers on the way are
used up, either by the first manifest or by an entry that has been taken over. Hence the largest
number cannot run away from the number of entries, and a counter of machine words that tries one
number after the other finds the same numbers.
-/

namespace PersistedDocuments

/-! ## Free numbers -/

section FreeNumbers

variable {taken other : List String} {n last count : Nat}

theorem freeNumber_le {m : Nat} (above : n ≤ m) (free : (QueryId.number m).toText ∉ taken) :
    freeNumber taken n ≤ m := by
  fun_induction freeNumber taken n with
  | case1 taken n text inUse ih =>
      have different : n ≠ m := by
        rintro rfl
        exact free inUse
      exact ih (Nat.lt_of_le_of_ne above different) fun present =>
        free (List.mem_of_mem_erase present)
  | case2 => exact above

theorem freeNumber_of_mem (inUse : (QueryId.number n).toText ∈ taken) :
    freeNumber taken n = freeNumber taken (n + 1) := by
  have different : n ≠ freeNumber taken n := by
    intro same
    rw [same] at inUse
    exact toText_freeNumber_not_mem taken n inUse
  apply Nat.le_antisymm
  · exact freeNumber_le (Nat.le_of_succ_le (le_freeNumber ..)) (toText_freeNumber_not_mem taken _)
  · exact freeNumber_le (Nat.lt_of_le_of_ne (le_freeNumber ..) different)
      (toText_freeNumber_not_mem taken n)

/-- The free number is the least one from `n` on whose text is not taken. -/
theorem isLeast_freeNumber (taken : List String) (n : Nat) :
    IsLeast {m | n ≤ m ∧ (QueryId.number m).toText ∉ taken} (freeNumber taken n) :=
  ⟨⟨le_freeNumber taken n, toText_freeNumber_not_mem taken n⟩,
    fun _ candidate => freeNumber_le candidate.1 candidate.2⟩

/-- A free number depends on the texts of the numbers that are tried and on no others. -/
theorem freeNumber_congr
    (agree : ∀ m, n ≤ m → ((QueryId.number m).toText ∈ taken ↔ (QueryId.number m).toText ∈ other)) :
    freeNumber taken n = freeNumber other n := by
  have sameFree : {m | n ≤ m ∧ (QueryId.number m).toText ∉ taken} =
      {m | n ≤ m ∧ (QueryId.number m).toText ∉ other} := by
    ext m
    exact and_congr_right fun above => not_congr (agree m above)
  exact (isLeast_freeNumber taken n).unique (sameFree ▸ isLeast_freeNumber other n)

/-- So many free numbers after the last one, in increasing order. -/
def freeNumbers (taken : List String) (last : Nat) : Nat → List Nat
  | 0 => []
  | count + 1 =>
    freeNumber taken (last + 1) :: freeNumbers taken (freeNumber taken (last + 1)) count

theorem length_freeNumbers (taken : List String) (last count : Nat) :
    (freeNumbers taken last count).length = count := by
  induction count generalizing last with
  | zero => rfl
  | succ count ih => rw [freeNumbers, List.length_cons, ih]

/-- The numbers increase, they come after the last one, and none of their texts is taken. -/
theorem pairwise_freeNumbers (taken : List String) (last count : Nat) :
    (freeNumbers taken last count).Pairwise (· < ·) ∧
      ∀ n ∈ freeNumbers taken last count, last < n ∧ (QueryId.number n).toText ∉ taken := by
  induction count generalizing last with
  | zero => exact ⟨.nil, fun _ absent => (nomatch absent)⟩
  | succ count ih =>
      have larger : last < freeNumber taken (last + 1) := le_freeNumber taken (last + 1)
      have ⟨increasing, later⟩ := ih (freeNumber taken (last + 1))
      rw [freeNumbers, List.pairwise_cons, List.forall_mem_cons]
      refine ⟨⟨fun n present => (later n present).1, increasing⟩,
        ⟨larger, toText_freeNumber_not_mem taken _⟩, ?_⟩
      intro n present
      exact ⟨Nat.lt_trans larger (later n present).1, (later n present).2⟩

theorem freeNumbers_congr
    (agree : ∀ m, last < m →
      ((QueryId.number m).toText ∈ taken ↔ (QueryId.number m).toText ∈ other)) :
    freeNumbers taken last count = freeNumbers other last count := by
  induction count generalizing last with
  | zero => rfl
  | succ count ih =>
      have sameNumber : freeNumber taken (last + 1) = freeNumber other (last + 1) :=
        freeNumber_congr agree
      have larger : last < freeNumber taken (last + 1) := le_freeNumber taken (last + 1)
      rw [freeNumbers, freeNumbers, ← sameNumber,
        ih fun m above => agree m (Nat.lt_trans larger above)]

/-- Each of the numbers is the least one after the last and the earlier ones that is free. -/
theorem isLeast_of_freeNumbers {k : Nat} (place : (freeNumbers taken last count)[k]? = some n) :
    IsLeast {m | last < m ∧ (∀ earlier ∈ (freeNumbers taken last count).take k, earlier < m) ∧
      (QueryId.number m).toText ∉ taken} n := by
  induction count generalizing last k with
  | zero => cases place
  | succ count ih =>
      rw [freeNumbers] at place ⊢
      cases k with
      | zero =>
          cases place
          have ⟨⟨above, free⟩, least⟩ := isLeast_freeNumber taken (last + 1)
          exact ⟨⟨above, fun _ absent => (nomatch absent), free⟩,
            fun m candidate => least ⟨candidate.1, candidate.2.2⟩⟩
      | succ k =>
          have larger : last < freeNumber taken (last + 1) := le_freeNumber taken (last + 1)
          have ⟨⟨afterFirst, afterOthers, free⟩, least⟩ := ih place
          rw [List.take_succ_cons]
          refine ⟨⟨Nat.lt_trans larger afterFirst, ?_, free⟩, ?_⟩
          · exact List.forall_mem_cons.2 ⟨afterFirst, afterOthers⟩
          · rintro m ⟨_, afterAll, alsoFree⟩
            have ⟨alsoAfterFirst, alsoAfterOthers⟩ := List.forall_mem_cons.1 afterAll
            exact least ⟨alsoAfterFirst, alsoAfterOthers, alsoFree⟩

end FreeNumbers

/-! ## What a merge appends -/

/-- The entry under a number. -/
def Entry.renumber (entry : Entry) (n : Nat) : Entry := { entry with id := .number n }

namespace Manifest

variable {manifest : Manifest} {entry : Entry} {rest : List Entry}

/-- The entries whose keys the manifest does not have. -/
def unknown (manifest : Manifest) (entries : List Entry) : List Entry :=
  entries.filter fun entry => entry.key ∉ manifest.keys

theorem adopt_of_mem (known : entry.key ∈ manifest.keys) : manifest.adopt entry = manifest :=
  dif_pos known

theorem adopt_of_not_mem (fresh : entry.key ∉ manifest.keys) :
    manifest.adopt entry = manifest.push { entry with id := manifest.nextId } fresh :=
  dif_neg fresh

theorem idTexts_adopt_of_not_mem (fresh : entry.key ∉ manifest.keys) :
    (manifest.adopt entry).idTexts = manifest.idTexts ++ [manifest.nextId.toText] := by
  rw [idTexts, entries_adopt_of_not_mem fresh, List.map_append]
  rfl

theorem maxNumber_push_number {n : Nat} (larger : manifest.maxNumber < n)
    (fresh : (entry.renumber n).key ∉ manifest.keys) :
    (manifest.push (entry.renumber n) fresh).maxNumber = n := by
  rw [maxNumber, push, List.filterMap_append, List.foldl_append]
  exact Nat.max_eq_right (Nat.le_of_lt larger)

/-- The number that an entry gets when it is taken over is the largest one from then on. -/
theorem maxNumber_adopt_of_not_mem (fresh : entry.key ∉ manifest.keys) :
    (manifest.adopt entry).maxNumber = freeNumber manifest.idTexts (manifest.maxNumber + 1) := by
  rw [adopt_of_not_mem fresh]
  exact maxNumber_push_number (le_freeNumber ..) fresh

/-- What is unknown stays so when an entry with another key is taken over. -/
theorem unknown_adopt (others : ∀ other ∈ rest, other.key ≠ entry.key) :
    (manifest.adopt entry).unknown rest = manifest.unknown rest := by
  apply List.filter_congr
  intro other present
  simp [mem_keys_adopt, others other present]

/-- Entries with distinct keys are taken over in their order, under the free numbers that follow
the largest one. -/
theorem entries_foldl_adopt (distinct : (rest.map Entry.key).Nodup) :
    (rest.foldl adopt manifest).entries = manifest.entries ++
      List.zipWith Entry.renumber (manifest.unknown rest)
        (freeNumbers manifest.idTexts manifest.maxNumber (manifest.unknown rest).length) := by
  induction rest generalizing manifest with
  | nil => simp [unknown]
  | cons entry rest ih =>
      have ⟨unseen, restDistinct⟩ := List.nodup_cons.1 distinct
      have others : ∀ other ∈ rest, other.key ≠ entry.key :=
        fun other present same => unseen (List.mem_map.2 ⟨other, present, same⟩)
      have unknownRest : (manifest.adopt entry).unknown rest = manifest.unknown rest :=
        unknown_adopt others
      by_cases known : entry.key ∈ manifest.keys
      · have skipped : manifest.unknown (entry :: rest) = manifest.unknown rest := by
          simp [unknown, known]
        rw [List.foldl_cons, adopt_of_mem known, ih restDistinct, skipped]
      · have taken : manifest.unknown (entry :: rest) = entry :: manifest.unknown rest := by
          simp [unknown, known]
        have sameNumbers : freeNumbers (manifest.idTexts ++ [manifest.nextId.toText])
            (freeNumber manifest.idTexts (manifest.maxNumber + 1)) (manifest.unknown rest).length =
            freeNumbers manifest.idTexts (freeNumber manifest.idTexts (manifest.maxNumber + 1))
              (manifest.unknown rest).length := by
          apply freeNumbers_congr
          intro m above
          have different : (QueryId.number m).toText ≠ manifest.nextId.toText :=
            fun same => Nat.ne_of_gt above (QueryId.toText_number_inj.1 same)
          simp [different]
        rw [List.foldl_cons, ih restDistinct, entries_adopt_of_not_mem known, unknownRest,
          idTexts_adopt_of_not_mem known, maxNumber_adopt_of_not_mem known, sameNumbers, taken,
          List.length_cons, freeNumbers, List.zipWith_cons_cons, List.append_assoc]
        rfl

/-- A merge appends the unknown entries under the free numbers that follow the largest one. -/
theorem entries_merge (a b : Manifest) :
    (a.merge b).entries = a.entries ++ List.zipWith Entry.renumber (a.unknown b.entries)
      (freeNumbers a.idTexts a.maxNumber (a.unknown b.entries).length) :=
  entries_foldl_adopt b.distinct

/-- An identifier that a merge gives has another text than every other identifier. -/
theorem idTexts_merge_inj {a b : Manifest} {i j : Nat} {text : String} (added : a.size ≤ i)
    (left : (a.merge b).idTexts[i]? = some text) (right : (a.merge b).idTexts[j]? = some text) :
    i = j := by
  let numbers := freeNumbers a.idTexts a.maxNumber (a.unknown b.entries).length
  let texts := numbers.map fun n => (QueryId.number n).toText
  have ⟨increasing, free⟩ :=
    pairwise_freeNumbers a.idTexts a.maxNumber (a.unknown b.entries).length
  have distinct : texts.Nodup := increasing.map _ fun m n less same =>
    Nat.ne_of_lt less (QueryId.toText_number_inj.1 same)
  have split : (a.merge b).idTexts = a.idTexts ++ texts := by
    rw [idTexts, entries_merge, List.map_append, List.map_zipWith]
    congr 1
    apply List.ext_getElem
    · simp [texts, numbers, length_freeNumbers]
    · simp [texts, numbers, Entry.renumber]
  have untaken : text ∈ texts → text ∉ a.idTexts := by
    intro present
    rcases List.mem_map.1 present with ⟨n, given, rfl⟩
    exact (free n given).2
  have first : a.idTexts.length ≤ i := by rw [idTexts, List.length_map]; exact added
  rw [split, List.getElem?_append_right first] at left
  have among := List.mem_of_getElem? left
  by_cases old : j < a.idTexts.length
  · rw [split, List.getElem?_append_left old] at right
    exact absurd (List.mem_of_getElem? right) (untaken among)
  · have second := Nat.le_of_not_lt old
    rw [split, List.getElem?_append_right second] at right
    have place := (List.getElem?_eq_some_iff.1 left).1
    have same := (List.getElem?_inj place distinct).1 (left.trans right.symm)
    omega

theorem le_maxNumber {n : Nat} (present : entry ∈ manifest.entries)
    (numbered : entry.id = .number n) : n ≤ manifest.maxNumber := by
  have among : n ∈ manifest.entries.filterMap fun entry => entry.id.number? :=
    List.mem_filterMap.2 ⟨entry, present, by rw [numbered]; rfl⟩
  rw [maxNumber, List.foldl_max]
  exact Nat.le_trans (List.le_max?_getD_of_mem among) (Nat.le_max_right ..)

/-- Every number that a merge gives stands in the result. -/
theorem le_maxNumber_merge {a b : Manifest} {n : Nat}
    (given : n ∈ freeNumbers a.idTexts a.maxNumber (a.unknown b.entries).length) :
    n ≤ (a.merge b).maxNumber := by
  rcases List.mem_iff_getElem?.1 given with ⟨k, place⟩
  have inRange : k < (a.unknown b.entries).length := by
    rw [← length_freeNumbers a.idTexts a.maxNumber (a.unknown b.entries).length]
    exact (List.getElem?_eq_some_iff.1 place).1
  have present : (a.unknown b.entries)[k].renumber n ∈ (a.merge b).entries := by
    rw [entries_merge]
    apply List.mem_append_right
    apply List.mem_of_getElem? (i := k)
    rw [List.getElem?_zipWith, List.getElem?_eq_getElem inRange, place]
  exact le_maxNumber present rfl

/-! ## Room for the numbers -/

/-- Every number after `start` up to the largest one is in use. -/
def FilledFrom (manifest : Manifest) (start : Nat) : Prop :=
  ∀ m, start < m → m ≤ manifest.maxNumber → (QueryId.number m).toText ∈ manifest.idTexts

theorem FilledFrom.adopt {start : Nat} (filled : manifest.FilledFrom start) (entry : Entry) :
    (manifest.adopt entry).FilledFrom start := by
  by_cases known : entry.key ∈ manifest.keys
  · rw [adopt_of_mem known]
    exact filled
  · intro m above below
    rw [maxNumber_adopt_of_not_mem known] at below
    rw [idTexts_adopt_of_not_mem known, List.mem_append, List.mem_singleton]
    by_contra free
    rw [not_or] at free
    have passed : manifest.maxNumber < m := by
      by_contra old
      exact free.1 (filled m above (Nat.le_of_not_lt old))
    have same := Nat.le_antisymm below (freeNumber_le passed free.1)
    exact free.2 (congrArg (fun n => (QueryId.number n).toText) same)

theorem filledFrom_merge (a b : Manifest) : (a.merge b).FilledFrom a.maxNumber := by
  have start : a.FilledFrom a.maxNumber :=
    fun m above below => absurd below (Nat.not_le_of_lt above)
  refine List.foldlRecOn (motive := (FilledFrom · a.maxNumber)) b.entries adopt start ?_
  intro before filled entry _
  exact filled.adopt entry

/-- Numbers that are in use have entries of their own. -/
theorem FilledFrom.maxNumber_le {start : Nat} (filled : manifest.FilledFrom start) :
    manifest.maxNumber ≤ start + manifest.size := by
  let used := (List.range' (start + 1) (manifest.maxNumber - start)).map fun m =>
    (QueryId.number m).toText
  have distinct : used.Nodup := List.Pairwise.map _
    (fun _ _ different same => different (QueryId.toText_number_inj.1 same)) List.nodup_range'
  have subset : used ⊆ manifest.idTexts := by
    intro text present
    rcases List.mem_map.1 present with ⟨m, inRange, rfl⟩
    have := List.mem_range'_1.1 inRange
    exact filled m (by omega) (by omega)
  have fewer := (distinct.subperm subset).length_le
  simp only [used, idTexts, List.length_map, List.length_range'] at fewer
  rw [size]
  omega

theorem size_merge_le (a b : Manifest) : (a.merge b).size ≤ a.size + b.size := by
  rw [size, entries_merge, List.length_append, List.length_zipWith, length_freeNumbers,
    Nat.min_self]
  exact Nat.add_le_add_left (List.length_filter_le ..) _

/-- A merge needs no larger numbers than there are entries. -/
theorem maxNumber_merge_le (a b : Manifest) :
    (a.merge b).maxNumber ≤ a.maxNumber + (a.size + b.size) :=
  Nat.le_trans (filledFrom_merge a b).maxNumber_le (Nat.add_le_add_left (size_merge_le a b) _)

end Manifest

/-! ## Counting in machine words -/

/-- Counts on from a number to the next one whose text is not taken. There is none if the count
leaves the range of identifiers. -/
def countFree? (taken : List String) (last : Nat) : Option Nat :=
  if _room : last + 1 < QueryId.limit then
    if (QueryId.number (last + 1)).toText ∈ taken then countFree? taken (last + 1)
    else some (last + 1)
  else none
termination_by QueryId.limit - last

/-- Counting finds the free number, unless that leaves the range. -/
theorem countFree?_eq (taken : List String) (last : Nat) :
    countFree? taken last =
      if freeNumber taken (last + 1) < QueryId.limit then some (freeNumber taken (last + 1))
      else none := by
  fun_induction countFree? taken last with
  | case1 last room inUse ih => rw [ih, freeNumber_of_mem inUse]
  | case2 last room free => rw [freeNumber_of_not_mem free, if_pos room]
  | case3 last full =>
      rw [if_neg]
      exact fun fits => full (Nat.lt_of_le_of_lt (le_freeNumber ..) fits)

/-- A merge under way: what it has collected, the texts in use, and the number given last. -/
structure Merging where
  manifest : Manifest
  taken : List String
  last : Nat

namespace Merging

/-- A merge that has taken over nothing yet. -/
def start (manifest : Manifest) : Merging := ⟨manifest, manifest.idTexts, manifest.maxNumber⟩

/-- Takes over an entry under the number to which the count goes on, unless its key is known. -/
def adopt? (merging : Merging) (entry : Entry) : Option Merging :=
  if known : entry.key ∈ merging.manifest.keys then some merging
  else do
    let n ← countFree? merging.taken merging.last
    return {
      manifest := merging.manifest.push (entry.renumber n) known
      taken := merging.taken ++ [(QueryId.number n).toText]
      last := n }

end Merging

namespace Manifest

variable {manifest : Manifest} {entry : Entry} {rest : List Entry}

/-- The merge with a counter that goes through the entries once. There is no result if the counter
leaves the range of identifiers. -/
def mergeCounting? (a b : Manifest) : Option Manifest :=
  (b.entries.foldlM Merging.adopt? (.start a)).map Merging.manifest

theorem maxNumber_le_adopt (manifest : Manifest) (entry : Entry) :
    manifest.maxNumber ≤ (manifest.adopt entry).maxNumber := by
  by_cases known : entry.key ∈ manifest.keys
  · rw [adopt_of_mem known]
  · rw [maxNumber_adopt_of_not_mem known]
    exact Nat.le_of_succ_le (le_freeNumber ..)

theorem maxNumber_le_foldl (manifest : Manifest) (rest : List Entry) :
    manifest.maxNumber ≤ (rest.foldl adopt manifest).maxNumber := by
  refine List.foldlRecOn (motive := (manifest.maxNumber ≤ ·.maxNumber)) rest adopt
    (Nat.le_refl _) ?_
  intro before above entry _
  exact Nat.le_trans above (maxNumber_le_adopt before entry)

/-- Takes over an entry if its key is known or there is room for the number that it gets. -/
def adopt? (manifest : Manifest) (entry : Entry) : Option Manifest :=
  if entry.key ∈ manifest.keys ∨ (manifest.adopt entry).maxNumber < QueryId.limit then
    some (manifest.adopt entry)
  else none

theorem adopt?_of_mem (known : entry.key ∈ manifest.keys) :
    manifest.adopt? entry = some manifest := by
  rw [adopt?, if_pos (.inl known), adopt_of_mem known]

/-- The counter keeps in step with a manifest whose largest number and texts are found anew. -/
theorem adopt?_start (manifest : Manifest) (entry : Entry) :
    (Merging.start manifest).adopt? entry = (manifest.adopt? entry).map Merging.start := by
  by_cases known : entry.key ∈ manifest.keys
  · rw [adopt?_of_mem known]
    exact dif_pos known
  · let n := freeNumber manifest.idTexts (manifest.maxNumber + 1)
    have counted : countFree? manifest.idTexts manifest.maxNumber =
        if n < QueryId.limit then some n else none := countFree?_eq ..
    have number : (manifest.adopt entry).maxNumber = n := maxNumber_adopt_of_not_mem known
    have started : Merging.start (manifest.adopt entry) =
        ⟨manifest.push (entry.renumber n) known,
          manifest.idTexts ++ [(QueryId.number n).toText], n⟩ := by
      rw [Merging.start, idTexts_adopt_of_not_mem known, number, adopt_of_not_mem known]
      rfl
    rw [adopt?, number]
    refine (dif_neg known).trans ?_
    simp only [Merging.start, counted]
    by_cases fits : n < QueryId.limit
    · rw [if_pos fits, if_pos (.inr fits), Option.map_some, started]
      rfl
    · rw [if_neg fits, if_neg (not_or.2 ⟨known, fits⟩)]
      rfl

theorem foldlM_adopt?_start (manifest : Manifest) (rest : List Entry) :
    rest.foldlM Merging.adopt? (.start manifest) =
      (rest.foldlM adopt? manifest).map Merging.start := by
  induction rest generalizing manifest with
  | nil => rfl
  | cons entry rest ih =>
      rw [List.foldlM_cons, List.foldlM_cons, adopt?_start]
      cases manifest.adopt? entry with
      | none => rfl
      | some after => exact ih after

theorem mergeCounting?_eq_foldlM (a b : Manifest) :
    a.mergeCounting? b = b.entries.foldlM adopt? a := by
  rw [mergeCounting?, foldlM_adopt?_start, Option.map_map]
  exact Option.map_id' ..

theorem foldlM_adopt? (fits : (rest.foldl adopt manifest).maxNumber < QueryId.limit) :
    rest.foldlM adopt? manifest = some (rest.foldl adopt manifest) := by
  induction rest generalizing manifest with
  | nil => rfl
  | cons entry rest ih =>
      have stepFits := Nat.lt_of_le_of_lt (maxNumber_le_foldl (manifest.adopt entry) rest) fits
      rw [List.foldlM_cons, adopt?, if_pos (.inr stepFits)]
      exact ih fits

theorem mergeCounting?_eq_some {a b : Manifest} (fits : (a.merge b).maxNumber < QueryId.limit) :
    a.mergeCounting? b = some (a.merge b) := by
  rw [mergeCounting?_eq_foldlM, foldlM_adopt? fits, merge]

/-- If there is room for the numbers, counting succeeds with the merged manifest. It holds the
entries of the first one as they were, and behind them those that the first one does not know, each
under the least number behind all earlier ones whose text the first manifest does not use. So no
identifier clashes with one of these, and a store can be made of the result if it can be made of the
first manifest. -/
theorem merge_appends (a b : Manifest) (room : a.maxNumber + a.size + b.size < QueryId.limit) :
    a.mergeCounting? b = some (a.merge b) ∧
    (∃ numbers : List Nat,
      (a.merge b).entries =
        a.entries ++ List.zipWith Entry.renumber (a.unknown b.entries) numbers ∧
      numbers.length = (a.unknown b.entries).length ∧
      ∀ k n, numbers[k]? = some n → n < QueryId.limit ∧
        IsLeast {m | a.maxNumber < m ∧ (∀ earlier ∈ numbers.take k, earlier < m) ∧
          (QueryId.number m).toText ∉ a.idTexts} n) ∧
    (∀ i j text, a.size ≤ i → (a.merge b).idTexts[i]? = some text →
      (a.merge b).idTexts[j]? = some text → i = j) ∧
    ((∃ store, Store.ofManifest (a.merge b) = .ok store) ↔
      ∃ store, Store.ofManifest a = .ok store) := by
  have fits : (a.merge b).maxNumber < QueryId.limit :=
    Nat.lt_of_le_of_lt (maxNumber_merge_le a b) (by omega)
  refine ⟨mergeCounting?_eq_some fits, ?_, fun i j text => idTexts_merge_inj, ?_⟩
  · refine ⟨_, entries_merge a b, length_freeNumbers .., ?_⟩
    intro k n place
    exact ⟨Nat.lt_of_le_of_lt (le_maxNumber_merge (List.mem_of_getElem? place)) fits,
      isLeast_of_freeNumbers place⟩
  · rw [Store.exists_ofManifest_iff, Store.exists_ofManifest_iff]
    refine ⟨fun distinct => ?_, nodup_idTexts_merge⟩
    rw [idTexts, entries_merge, List.map_append] at distinct
    exact (List.nodup_append.1 distinct).1

/-- Two texts in use that look like the next numbers, one directly behind the largest number and one
between the two that are given. -/
theorem merge_appends_of_texts :
    let entry (key : String) (id : QueryId) : Entry := ⟨key, id, ⟨[]⟩⟩
    let a : Manifest :=
      ⟨[entry "a" (.number 1), entry "b" (.text "2"), entry "c" (.text "4")], by decide⟩
    let b : Manifest :=
      ⟨[entry "d" (.number 1), entry "b" (.number 9), entry "e" (.text "3")], by decide⟩
    a.maxNumber + a.size + b.size < QueryId.limit ∧
    a.mergeCounting? b = some (a.merge b) ∧
    (a.merge b).entries.map Entry.id =
      [.number 1, .text "2", .text "4", .number 3, .number 5] ∧
    ∃ store, Store.ofManifest (a.merge b) = .ok store := by
  intro entry a b
  have room : a.maxNumber + a.size + b.size < QueryId.limit := by decide
  have ⟨counted, _, _, stored⟩ := merge_appends a b room
  refine ⟨room, counted, by decide +kernel, stored.2 ?_⟩
  exact Store.exists_ofManifest_iff.2 (by decide +kernel)

end Manifest

end PersistedDocuments
