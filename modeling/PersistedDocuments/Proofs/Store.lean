import PersistedDocuments.Store
import PersistedDocuments.Proofs.Lookup
import PersistedDocuments.Proofs.Outcome

/-!
# Stores made of manifests

A manifest whose identifiers have distinct texts makes a store, in which every entry is found by its
identifier and by no other that has a different text. In any other manifest the first entry whose
identifier has the text of an earlier one is the one that is refused.
-/

namespace PersistedDocuments

/-- Identifiers that name the same query: a number matches the text of its digits, and every
identifier matches itself. -/
inductive QueryId.Matches : QueryId → QueryId → Prop
  | self (id : QueryId) : Matches id id
  | digits (n : Nat) : Matches (.number n) (.text (toString n))
  | number (n : Nat) : Matches (.text (toString n)) (.number n)

/-- Identifiers match exactly if they have the same text. -/
theorem QueryId.matches_iff {id other : QueryId} :
    id.Matches other ↔ id.toText = other.toText := by
  constructor
  · rintro (_ | _ | _) <;> rfl
  · intro same
    cases id with
    | number n =>
        cases other with
        | number m =>
            rw [toText_number_inj.1 same]
            exact .self _
        | text s =>
            obtain rfl : toString n = s := same
            exact .digits n
    | text s =>
        cases other with
        | number m =>
            obtain rfl : s = toString m := same
            exact .number m
        | text t =>
            obtain rfl : s = t := same
            exact .self _

namespace Store

variable {store : Store} {entries : List Entry}

/-- The queries of entries as they are stored, the last entry first. -/
def listing (entries : List Entry) : List (String × String) :=
  (entries.map fun entry => (entry.id.toText, entry.document.print)).reverse

/-- Entries whose identifiers are new and distinct are all added. -/
theorem foldlM_add (distinct : (entries.map fun entry => entry.id.toText).Nodup)
    (fresh : ∀ entry ∈ entries, entry.id.toText ∉ store.queries.map Prod.fst) :
    ∃ result, entries.foldlM add store = .ok result ∧
      result.queries = listing entries ++ store.queries := by
  induction entries generalizing store with
  | nil => exact ⟨store, rfl, rfl⟩
  | cons entry rest ih =>
      have ⟨unseen, restDistinct⟩ := List.nodup_cons.1 distinct
      have absent := fresh entry (List.mem_cons_self ..)
      let after : Store := ⟨(entry.id.toText, entry.document.print) :: store.queries,
        List.nodup_cons.2 ⟨absent, store.distinct⟩⟩
      have stillFresh : ∀ other ∈ rest, other.id.toText ∉ after.queries.map Prod.fst := by
        intro other present
        rw [List.map_cons, List.mem_cons]
        rintro (same | old)
        · exact unseen (List.mem_map.2 ⟨other, present, same⟩)
        · exact fresh other (List.mem_cons_of_mem _ present) old
      rcases ih restDistinct stillFresh with ⟨result, added, queries⟩
      refine ⟨result, ?_, ?_⟩
      · rw [List.foldlM_cons, add, dif_neg absent]
        exact added
      · rw [queries, listing, listing, List.map_cons, List.reverse_cons, List.append_assoc]
        rfl

/-- A manifest without a clash makes a store that finds every entry by its identifier. -/
theorem ofManifest_of_nodup {manifest : Manifest} (distinct : manifest.idTexts.Nodup) :
    ∃ store, ofManifest manifest = .ok store ∧
      ∀ entry ∈ manifest.entries, store.fetch entry.id = .ok entry.document.print := by
  have fresh : ∀ entry ∈ manifest.entries, entry.id.toText ∉ empty.queries.map Prod.fst :=
    fun _ _ present => nomatch present
  rcases foldlM_add distinct fresh with ⟨store, made, queries⟩
  refine ⟨store, made, fun entry present => ?_⟩
  have stored : (entry.id.toText, entry.document.print) ∈ store.queries := by
    rw [queries, listing, List.mem_append, List.mem_reverse]
    exact .inl (List.mem_map.2 ⟨entry, present, rfl⟩)
  rw [fetch, lookup_eq_some_of_mem store.distinct stored]

/-- Entries that are all added have identifiers that are new and distinct. -/
theorem nodup_of_foldlM_add {result : Store} (added : entries.foldlM add store = .ok result) :
    (entries.map fun entry => entry.id.toText).Nodup ∧
      ∀ entry ∈ entries, entry.id.toText ∉ store.queries.map Prod.fst := by
  induction entries generalizing store with
  | nil => exact ⟨List.nodup_nil, fun _ present => (nomatch present)⟩
  | cons entry rest ih =>
      rw [List.foldlM_cons] at added
      rcases bind_eq_ok.1 added with ⟨after, first, others⟩
      rw [add] at first
      split at first
      · cases first
      · next absent =>
          cases first
          have ⟨restDistinct, restFresh⟩ := ih others
          constructor
          · refine List.nodup_cons.2 ⟨fun repeated => ?_, restDistinct⟩
            rcases List.mem_map.1 repeated with ⟨other, present, same⟩
            exact restFresh other present (same ▸ List.mem_cons_self)
          · intro other present
            rcases List.mem_cons.1 present with rfl | later
            · exact absent
            · exact fun old => restFresh other later (List.mem_cons_of_mem _ old)

/-- A manifest makes a store exactly if no two of its identifiers have the same text. -/
theorem exists_ofManifest_iff {manifest : Manifest} :
    (∃ store, ofManifest manifest = .ok store) ↔ manifest.idTexts.Nodup := by
  constructor
  · rintro ⟨store, made⟩
    exact (nodup_of_foldlM_add made).1
  · intro distinct
    rcases ofManifest_of_nodup distinct with ⟨store, made, _⟩
    exact ⟨store, made⟩

theorem add_eq_error {entry : Entry} {failure : Failure} :
    store.add entry = .error failure ↔
      entry.id.toText ∈ store.queries.map Prod.fst ∧ failure = .duplicateId entry.id := by
  rw [add]
  split
  · next known => simp [known, eq_comm]
  · next unknown => simp [unknown]

/-- What a run of additions has stored. -/
theorem queries_of_foldlM_add {result : Store} (added : entries.foldlM add empty = .ok result) :
    result.queries = listing entries := by
  have ⟨distinct, fresh⟩ := nodup_of_foldlM_add added
  rcases foldlM_add distinct fresh with ⟨other, same, queries⟩
  cases added.symm.trans same
  rw [queries]
  exact List.append_nil _

theorem mem_listing {text : String} :
    text ∈ (listing entries).map Prod.fst ↔ text ∈ entries.map fun entry => entry.id.toText := by
  rw [listing, List.map_reverse, List.mem_reverse, List.map_map]
  rfl

/-- A manifest is refused for the first entry whose identifier an earlier one has. -/
theorem ofManifest_eq_error {manifest : Manifest} {failure : Failure} :
    ofManifest manifest = .error failure ↔
      ∃ before entry after, manifest.entries = before ++ entry :: after ∧
        (before.map fun entry => entry.id.toText).Nodup ∧
        (entry.id.toText ∈ before.map fun entry => entry.id.toText) ∧
        failure = .duplicateId entry.id := by
  rw [ofManifest, foldlM_eq_error]
  constructor
  · rintro ⟨before, entry, after, reached, split, run, refused⟩
    rw [add_eq_error, queries_of_foldlM_add run, mem_listing] at refused
    exact ⟨before, entry, after, split, (nodup_of_foldlM_add run).1, refused⟩
  · rintro ⟨before, entry, after, split, distinct, known, rfl⟩
    have fresh : ∀ entry ∈ before, entry.id.toText ∉ empty.queries.map Prod.fst :=
      fun _ _ present => nomatch present
    rcases foldlM_add distinct fresh with ⟨reached, run, _⟩
    refine ⟨before, entry, after, reached, split, run, ?_⟩
    rw [add_eq_error, queries_of_foldlM_add run, mem_listing]
    exact ⟨known, rfl⟩

theorem fetch_of_not_mem {id : QueryId} (absent : id.toText ∉ store.queries.map Prod.fst) :
    store.fetch id = .error (.unknownId id) := by
  rw [fetch, lookup_eq_none_of_not_mem absent]

/-- A manifest makes a store exactly if the texts of its identifiers are distinct, and is refused
for the first entry whose identifier an earlier one has otherwise. The store has as many queries as
the manifest has entries, and an identifier is answered by the printed document of the entry whose
identifier it matches, or by the failure that names it. -/
theorem ofManifest_indexes (manifest : Manifest) :
    ((∃ store, ofManifest manifest = .ok store) ↔ manifest.idTexts.Nodup) ∧
    (∀ failure, ofManifest manifest = .error failure ↔
      ∃ before entry after, manifest.entries = before ++ entry :: after ∧
        (before.map fun entry => entry.id.toText).Nodup ∧
        (entry.id.toText ∈ before.map fun entry => entry.id.toText) ∧
        failure = .duplicateId entry.id) ∧
    ∀ store, ofManifest manifest = .ok store →
      store.size = manifest.size ∧
      ∀ id : QueryId,
        (∀ entry ∈ manifest.entries, entry.id.Matches id →
          store.fetch id = .ok entry.document.print) ∧
        ((∀ entry ∈ manifest.entries, ¬entry.id.Matches id) →
          store.fetch id = .error (.unknownId id)) := by
  refine ⟨exists_ofManifest_iff, fun failure => ofManifest_eq_error, fun store made => ?_⟩
  have queries := queries_of_foldlM_add made
  constructor
  · rw [size, queries, listing, List.length_reverse, List.length_map, Manifest.size]
  · intro id
    simp only [QueryId.matches_iff]
    constructor
    · intro entry present same
      have stored : (id.toText, entry.document.print) ∈ store.queries := by
        rw [queries, listing, List.mem_reverse, ← same]
        exact List.mem_map.2 ⟨entry, present, rfl⟩
      rw [fetch, lookup_eq_some_of_mem store.distinct stored]
    · intro unlike
      apply fetch_of_not_mem
      rw [queries, mem_listing, List.mem_map]
      rintro ⟨entry, present, same⟩
      exact unlike entry present same

/-- Numbers and texts side by side, one of the texts with a leading zero; and two clashes, of which
the second one begins earlier. -/
theorem ofManifest_indexes_of_mixed :
    let entry (key : String) (id : QueryId) : Entry :=
      ⟨key, id, .ofOperation ⟨none, .nowhere, [.spread .nowhere key []]⟩⟩
    let manifest : Manifest :=
      ⟨[entry "a" (.number 1), entry "b" (.text "01"), entry "c" (.text "2")], by decide⟩
    let clashing : Manifest :=
      ⟨[entry "a" (.number 1), entry "b" (.number 2), entry "c" (.text "2"),
        entry "d" (.text "1")], by decide⟩
    (∃ store, ofManifest manifest = .ok store ∧ store.size = 3 ∧
      store.fetch (.number 2) = .ok "\x7b\n  ...c\n\x7d\n" ∧
      store.fetch (.text "02") = .error (.unknownId (.text "02"))) ∧
    ofManifest clashing = .error (.duplicateId (.text "2")) := by
  intro entry manifest clashing
  have ⟨makes, _, answers⟩ := ofManifest_indexes manifest
  rcases makes.2 (by decide) with ⟨store, made⟩
  have ⟨sizes, fetches⟩ := answers store made
  refine ⟨⟨store, made, sizes, ?_, ?_⟩, ?_⟩
  · have printed : (entry "c" (.text "2")).document.print = "\x7b\n  ...c\n\x7d\n" := by cbv
    rw [← printed]
    exact (fetches (.number 2)).1 (entry "c" (.text "2")) (by simp [manifest]) (.number 2)
  · apply (fetches (.text "02")).2
    intro other present
    rw [QueryId.matches_iff]
    simp only [manifest, List.mem_cons, List.not_mem_nil, or_false] at present
    rcases present with rfl | rfl | rfl <;> decide
  · apply ((ofManifest_indexes clashing).2.1 _).2
    exact ⟨[entry "a" (.number 1), entry "b" (.number 2)], entry "c" (.text "2"),
      [entry "d" (.text "1")], rfl, by decide, by decide, rfl⟩

end Store

end PersistedDocuments
