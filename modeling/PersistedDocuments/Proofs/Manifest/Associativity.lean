import PersistedDocuments.Proofs.Manifest.Numbering

/-!
# Merging in either order

Merging is associative. The numbers that an inner merge gives are thrown away by the outer one: when
an entry is taken over, its own identifier is not looked at, and the number it gets depends on the
receiving manifest only. So taking over an entry comes to the same before a merge and after it. The
counter of machine words takes part in this as long as it has room in the inner merge; then both
orders run out of room together or give the same manifest.
-/

namespace PersistedDocuments

namespace Manifest

variable {a b bc manifest after : Manifest} {entry : Entry} {entries : List Entry}

/-! ## Without a bound on the numbers -/

/-- Taking over an entry before a merge or after it comes to the same. -/
theorem merge_adopt (a b : Manifest) (entry : Entry) :
    a.merge (b.adopt entry) = (a.merge b).adopt entry := by
  by_cases known : entry.key ∈ b.keys
  · rw [adopt_of_mem known, adopt_of_mem (mem_keys_merge.2 (.inr known))]
  · rw [adopt_of_not_mem known, merge_push]
    rfl

theorem merge_merge (a b c : Manifest) : (a.merge b).merge c = a.merge (b.merge c) :=
  List.foldl_hom a.merge fun between entry => (merge_adopt a between entry).symm

/-! ## With a counter of machine words -/

theorem adopt?_eq_some (adopted : manifest.adopt? entry = some after) :
    after = manifest.adopt entry := by
  rw [adopt?] at adopted
  split at adopted
  · exact (Option.some.inj adopted).symm
  · cases adopted

theorem foldlM_adopt?_eq_some (adopted : entries.foldlM adopt? manifest = some after) :
    after = entries.foldl adopt manifest := by
  induction entries generalizing manifest with
  | nil => exact (Option.some.inj adopted).symm
  | cons entry rest ih =>
      rw [List.foldlM_cons] at adopted
      rcases Option.bind_eq_some_iff.1 adopted with ⟨between, first, later⟩
      cases adopt?_eq_some first
      exact ih later

/-- The counter gives nothing but the merged manifest. -/
theorem eq_merge_of_mergeCounting? (counted : a.mergeCounting? b = some after) :
    after = a.merge b := by
  rw [mergeCounting?_eq_foldlM] at counted
  exact foldlM_adopt?_eq_some counted

/-- The counter can take over an entry before a merge or after it. -/
theorem mergeCounting?_adopt? (a : Manifest) (adopted : b.adopt? entry = some after) :
    a.mergeCounting? after = (a.mergeCounting? b).bind (·.adopt? entry) := by
  cases adopt?_eq_some adopted
  by_cases known : entry.key ∈ b.keys
  · rw [adopt_of_mem known]
    cases counted : a.mergeCounting? b with
    | none => rfl
    | some merged =>
        cases eq_merge_of_mergeCounting? counted
        exact (adopt?_of_mem (mem_keys_merge.2 (.inr known))).symm
  · rw [adopt_of_not_mem known, mergeCounting?_eq_foldlM, mergeCounting?_eq_foldlM, push,
      List.foldlM_append]
    congr 1
    funext merged
    exact bind_pure (merged.adopt? entry)

theorem mergeCounting?_foldlM (a : Manifest) (adopted : entries.foldlM adopt? b = some after) :
    a.mergeCounting? after = (a.mergeCounting? b).bind (entries.foldlM adopt? ·) := by
  induction entries generalizing b with
  | nil =>
      cases adopted
      exact (bind_pure (a.mergeCounting? after)).symm
  | cons entry rest ih =>
      rw [List.foldlM_cons] at adopted
      rcases Option.bind_eq_some_iff.1 adopted with ⟨between, first, later⟩
      rw [ih later, mergeCounting?_adopt? a first, Option.bind_assoc]
      rfl

/-- Nothing is left to take over from a manifest whose keys are all known. -/
theorem mergeCounting?_of_known (known : ∀ entry ∈ b.entries, entry.key ∈ a.keys) :
    a.mergeCounting? b = some a := by
  rw [mergeCounting?_eq_foldlM]
  generalize b.entries = entries at known
  induction entries with
  | nil => rfl
  | cons entry rest ih =>
      have ⟨first, later⟩ := List.forall_mem_cons.1 known
      rw [List.foldlM_cons, adopt?_of_mem first]
      exact ih later

theorem known_of_merge (a b : Manifest) : ∀ entry ∈ b.entries, entry.key ∈ (a.merge b).keys :=
  fun _ present => mem_keys_merge.2 (.inr (List.mem_map_of_mem present))

/-- Merging is associative, and a manifest that has been merged already adds nothing. The counter
agrees: if it has room in the inner merge of the one order, then it runs out of room in both orders
or gives the same manifest in both, and it always has room for a manifest that adds nothing. -/
theorem merge_assoc (a b c : Manifest) :
    (a.merge b).merge c = a.merge (b.merge c) ∧
    (a.merge b).merge b = a.merge b ∧
    (∀ bc, b.mergeCounting? c = some bc → bc = b.merge c ∧
      a.mergeCounting? bc = (a.mergeCounting? b).bind fun ab => ab.mergeCounting? c) ∧
    ∀ ab, a.mergeCounting? b = some ab → ab = a.merge b ∧ ab.mergeCounting? b = some ab := by
  have repeated : (a.merge b).mergeCounting? b = some (a.merge b) :=
    mergeCounting?_of_known (known_of_merge a b)
  refine ⟨merge_merge a b c, (eq_merge_of_mergeCounting? repeated).symm, ?_, ?_⟩
  · intro bc counted
    refine ⟨eq_merge_of_mergeCounting? counted, ?_⟩
    rw [mergeCounting?_eq_foldlM] at counted
    rw [mergeCounting?_foldlM a counted]
    simp only [mergeCounting?_eq_foldlM]
  · intro ab counted
    cases eq_merge_of_mergeCounting? counted
    exact ⟨rfl, repeated⟩

/-- The text "8" of the second manifest is passed over by the inner merge only, the text "4" of the
first by the outer merges only. -/
theorem merge_assoc_of_texts :
    let entry (key : String) (id : QueryId) : Entry := ⟨key, id, ⟨[]⟩⟩
    let a : Manifest := ⟨[entry "a" (.number 1), entry "s" (.text "4")], by decide⟩
    let b : Manifest := ⟨[entry "x" (.number 7), entry "y" (.text "8")], by decide⟩
    let c : Manifest := ⟨[entry "y" (.number 1), entry "z" (.text "1")], by decide⟩
    ∃ ab bc abc, a.mergeCounting? b = some ab ∧ ab.mergeCounting? b = some ab ∧
      b.mergeCounting? c = some bc ∧ a.mergeCounting? bc = some abc ∧
      ((a.mergeCounting? b).bind fun ab => ab.mergeCounting? c) = some abc ∧
      bc.entries.map Entry.id = [.number 7, .text "8", .number 9] ∧
      abc.entries.map Entry.id = [.number 1, .text "4", .number 2, .number 3, .number 5] := by
  intro entry a b c
  have first : a.mergeCounting? b = some (a.merge b) :=
    mergeCounting?_eq_some (by decide +kernel)
  have inner : b.mergeCounting? c = some (b.merge c) :=
    mergeCounting?_eq_some (by decide +kernel)
  have outer : a.mergeCounting? (b.merge c) = some (a.merge (b.merge c)) :=
    mergeCounting?_eq_some (by decide +kernel)
  have ⟨_, _, agree, idle⟩ := merge_assoc a b c
  exact ⟨_, _, _, first, (idle _ first).2, inner, outer, (agree _ inner).2 ▸ outer,
    by decide +kernel, by decide +kernel⟩

end Manifest

end PersistedDocuments
