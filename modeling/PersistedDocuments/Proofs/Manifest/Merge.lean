import PersistedDocuments.Manifest.Merge

/-!
# Merged manifests

A number is free if its text is not among the texts of the identifiers in use. Since an entry that
is taken over gets a free number, merging adds no clash to the identifiers of the first manifest,
and it changes neither keys nor documents.
-/

namespace PersistedDocuments

theorem le_freeNumber (taken : List String) (n : Nat) : n ≤ freeNumber taken n := by
  fun_induction freeNumber taken n with
  | case1 taken n text inUse ih => exact Nat.le_of_succ_le ih
  | case2 => exact Nat.le_refl _

theorem toText_freeNumber_not_mem (taken : List String) (n : Nat) :
    (QueryId.number (freeNumber taken n)).toText ∉ taken := by
  fun_induction freeNumber taken n with
  | case1 taken n text inUse ih =>
      intro present
      have later : freeNumber (taken.erase text) (n + 1) ≠ n :=
        Nat.ne_of_gt (le_freeNumber _ (n + 1))
      have different : (QueryId.number (freeNumber (taken.erase text) (n + 1))).toText ≠ text :=
        fun same => later (QueryId.toText_number_inj.1 same)
      exact ih ((List.mem_erase_of_ne different).2 present)
  | case2 taken n text free => exact free

theorem freeNumber_of_not_mem {taken : List String} {n : Nat}
    (free : (QueryId.number n).toText ∉ taken) : freeNumber taken n = n := by
  rw [freeNumber, if_neg free]

namespace Manifest

variable {manifest : Manifest} {entry : Entry}

theorem entries_adopt_of_mem (known : entry.key ∈ manifest.keys) :
    (manifest.adopt entry).entries = manifest.entries := by
  have sameKey : ({ entry with id := manifest.nextId } : Entry).key ∈ manifest.keys := known
  rw [adopt, add, dif_pos sameKey]

theorem entries_adopt_of_not_mem (fresh : entry.key ∉ manifest.keys) :
    (manifest.adopt entry).entries =
      manifest.entries ++ [{ entry with id := manifest.nextId }] := by
  have sameKey : ({ entry with id := manifest.nextId } : Entry).key ∉ manifest.keys := fresh
  rw [adopt, add, dif_neg sameKey, push]

theorem nextId_fresh (manifest : Manifest) : manifest.nextId.toText ∉ manifest.idTexts :=
  toText_freeNumber_not_mem _ _

/-- Taking over an entry adds no clash. -/
theorem nodup_idTexts_adopt (distinct : manifest.idTexts.Nodup) (entry : Entry) :
    (manifest.adopt entry).idTexts.Nodup := by
  by_cases known : entry.key ∈ manifest.keys
  · rw [idTexts, entries_adopt_of_mem known]
    exact distinct
  · rw [idTexts, entries_adopt_of_not_mem known, List.map_append, List.nodup_append]
    refine ⟨distinct, by simp, ?_⟩
    rintro text present _ added rfl
    cases List.mem_singleton.1 added
    exact manifest.nextId_fresh present

theorem nodup_idTexts_merge {a b : Manifest} (distinct : a.idTexts.Nodup) :
    (a.merge b).idTexts.Nodup := by
  rw [merge]
  induction b.entries generalizing a with
  | nil => exact distinct
  | cons entry rest ih => exact ih (nodup_idTexts_adopt distinct entry)

theorem merge_push (a b : Manifest) (entry : Entry) (fresh : entry.key ∉ b.keys) :
    a.merge (b.push entry fresh) = (a.merge b).adopt entry := by
  rw [merge, push, List.foldl_append]
  rfl

/-- Taking over an entry makes its key known and loses none. -/
theorem mem_keys_adopt {key : String} :
    key ∈ (manifest.adopt entry).keys ↔ key ∈ manifest.keys ∨ key = entry.key := by
  by_cases known : entry.key ∈ manifest.keys
  · rw [keys, entries_adopt_of_mem known]
    exact ⟨.inl, fun origin => origin.elim id fun same => same ▸ known⟩
  · rw [keys, entries_adopt_of_not_mem known, List.map_append, List.mem_append]
    simp [keys]

theorem mem_keys_merge {a b : Manifest} {key : String} :
    key ∈ (a.merge b).keys ↔ key ∈ a.keys ∨ key ∈ b.keys := by
  rw [merge, keys, keys, keys]
  induction b.entries generalizing a with
  | nil => simp
  | cons first rest ih =>
      rw [List.foldl_cons, ih, List.map_cons, List.mem_cons]
      have adopted : key ∈ (a.adopt first).keys ↔ key ∈ a.keys ∨ key = first.key :=
        mem_keys_adopt
      rw [keys, keys] at adopted
      rw [adopted, or_assoc]

/-- An entry of a merged manifest has the key and the document of an entry of one of the two. -/
theorem exists_of_mem_merge {a b : Manifest} (present : entry ∈ (a.merge b).entries) :
    ∃ source, (source ∈ a.entries ∨ source ∈ b.entries) ∧
      entry.key = source.key ∧ entry.document = source.document := by
  rw [merge] at present
  generalize b.entries = adopted at present ⊢
  induction adopted generalizing a with
  | nil => exact ⟨entry, .inl present, rfl, rfl⟩
  | cons first rest ih =>
      rcases ih present with ⟨source, origin, sameKey, sameDocument⟩
      rcases origin with adopted | later
      · by_cases known : first.key ∈ a.keys
        · rw [entries_adopt_of_mem known] at adopted
          exact ⟨source, .inl adopted, sameKey, sameDocument⟩
        · rw [entries_adopt_of_not_mem known, List.mem_append, List.mem_singleton] at adopted
          rcases adopted with old | rfl
          · exact ⟨source, .inl old, sameKey, sameDocument⟩
          · exact ⟨first, .inr (List.mem_cons_self ..), sameKey, sameDocument⟩
      · exact ⟨source, .inr (List.mem_cons_of_mem _ later), sameKey, sameDocument⟩

end Manifest

end PersistedDocuments
