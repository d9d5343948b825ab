import PersistedDocuments.Manifest.Builder
import PersistedDocuments.Proofs.Outcome
import PersistedDocuments.Proofs.Reduction

/-!
# What a builder holds

A builder numbers its entries from one on without a gap, and every entry stands under the canonical
key of its document, which is in canonical order. Adding a reduced document keeps this, hence every
sequence of calls does, whether these succeed or fail.
-/

namespace PersistedDocuments

open GraphQL

theorem readDocument_eq_ok {text : String} {document : Document} :
    readDocument text = .ok document ↔ Document.parse text = .ok document :=
  mapError_eq_ok

theorem Manifest.lookup_of_mem_keys {manifest : Manifest} {key : String}
    (present : key ∈ manifest.keys) :
    ∃ entry ∈ manifest.entries, entry.key = key ∧ manifest.lookup key = .ok entry := by
  rw [keys, List.mem_map] at present
  rcases present with ⟨entry, member, same⟩
  cases found : manifest.find? key with
  | none =>
      have absent := List.find?_eq_none.1 found entry member
      simp [same] at absent
  | some other =>
      refine ⟨other, List.mem_of_find?_eq_some found, ?_, by rw [lookup, found]⟩
      simpa using List.find?_some found

theorem Manifest.lookup_of_not_mem_keys {manifest : Manifest} {key : String}
    (absent : key ∉ manifest.keys) : manifest.lookup key = .error .unknownKey := by
  cases found : manifest.find? key with
  | none => rw [lookup, found]
  | some entry =>
      have same : entry.key = key := by simpa using List.find?_some found
      exact absurd (List.mem_map.2 ⟨entry, List.mem_of_find?_eq_some found, same⟩) absent

theorem Manifest.mem_of_lookup {manifest : Manifest} {key : String} {entry : Entry}
    (found : manifest.lookup key = .ok entry) : entry ∈ manifest.entries ∧ entry.key = key := by
  by_cases present : key ∈ manifest.keys
  · rcases lookup_of_mem_keys present with ⟨other, among, sameKey, sameFound⟩
    cases found.symm.trans sameFound
    exact ⟨among, sameKey⟩
  · rw [lookup_of_not_mem_keys present] at found
    cases found

namespace Builder

variable {builder after : Builder} {document : Document} {reductions : List Document}

theorem addReduced_of_mem (known : document.canonicalKey ∈ builder.manifest.keys) :
    builder.addReduced document = builder := by
  rw [addReduced]
  exact dif_pos known

theorem addReduced_of_not_mem (fresh : document.canonicalKey ∉ builder.manifest.keys) :
    builder.addReduced document =
      { builder with
        last := builder.last + 1
        manifest := builder.manifest.push
          ⟨document.canonicalKey, .number (builder.last + 1), document⟩ fresh } := by
  rw [addReduced]
  exact dif_neg fresh

theorem pipeline_addReduced (builder : Builder) (document : Document) :
    (builder.addReduced document).pipeline = builder.pipeline := by
  by_cases known : document.canonicalKey ∈ builder.manifest.keys
  · rw [addReduced_of_mem known]
  · rw [addReduced_of_not_mem known]

theorem pipeline_foldl (builder : Builder) (reductions : List Document) :
    (reductions.foldl addReduced builder).pipeline = builder.pipeline := by
  induction reductions generalizing builder with
  | nil => rfl
  | cons document rest ih => exact (ih _).trans (pipeline_addReduced builder document)

/-- Nothing but the entry of the document is new. -/
theorem mem_addReduced {entry : Entry}
    (present : entry ∈ (builder.addReduced document).manifest.entries) :
    entry ∈ builder.manifest.entries ∨
      entry = ⟨document.canonicalKey, .number (builder.last + 1), document⟩ := by
  by_cases known : document.canonicalKey ∈ builder.manifest.keys
  · rw [addReduced_of_mem known] at present
    exact .inl present
  · rw [addReduced_of_not_mem known] at present
    exact (List.mem_append.1 present).imp_right List.mem_singleton.1

/-- The entries of a builder are numbered in their order, and each stands under the key of its
document, which is in canonical order. -/
structure Sound (builder : Builder) : Prop where
  ids : builder.manifest.entries.map Entry.id = (List.range' 1 builder.last).map QueryId.number
  keyed : ∀ entry ∈ builder.manifest.entries, entry.document.canonicalKey = entry.key
  sorted : ∀ entry ∈ builder.manifest.entries, entry.document.sorted = entry.document

theorem Sound.idTexts (sound : builder.Sound) :
    builder.manifest.idTexts =
      (List.range' 1 builder.last).map fun n => (QueryId.number n).toText := by
  have ofIds := congrArg (List.map QueryId.toText) sound.ids
  rw [List.map_map, List.map_map] at ofIds
  exact ofIds

/-- The documents are printed as the keys under which they stand. -/
theorem Sound.printed (sound : builder.Sound) :
    ∀ entry ∈ builder.manifest.entries, entry.document.print = entry.key := by
  intro entry present
  rw [← sound.keyed entry present, Document.canonicalKey, sound.sorted entry present]

/-- What is found under a key is printed as the key. -/
theorem Sound.lookup_of_mem_keys (sound : builder.Sound) {key : String}
    (known : key ∈ builder.manifest.keys) :
    ∃ entry ∈ builder.manifest.entries, builder.manifest.lookup key = .ok entry ∧
      entry.key = key ∧ entry.document.print = key := by
  rcases Manifest.lookup_of_mem_keys known with ⟨entry, member, sameKey, found⟩
  exact ⟨entry, member, found, sameKey, (sound.printed entry member).trans sameKey⟩

theorem sound_new (pipeline : Pipeline) : (new pipeline).Sound where
  ids := rfl
  keyed := fun _ present => nomatch present
  sorted := fun _ present => nomatch present

/-- One step keeps the numbering and the keys. -/
theorem Sound.addReduced (sound : builder.Sound) (ordered : document.sorted = document) :
    (builder.addReduced document).Sound := by
  constructor
  · by_cases known : document.canonicalKey ∈ builder.manifest.keys
    · rw [addReduced_of_mem known]
      exact sound.ids
    · rw [addReduced_of_not_mem known]
      simp only [Manifest.push, List.map_append, sound.ids, List.range'_1_concat]
      simp [Nat.add_comm]
  · intro entry present
    rcases mem_addReduced present with old | rfl
    · exact sound.keyed entry old
    · rfl
  · intro entry present
    rcases mem_addReduced present with old | rfl
    · exact sound.sorted entry old
    · exact ordered

theorem Sound.foldl_addReduced (sound : builder.Sound)
    (ordered : ∀ document ∈ reductions, document.sorted = document) :
    (reductions.foldl Builder.addReduced builder).Sound := by
  apply List.foldlRecOn reductions Builder.addReduced sound
  intro before sound document present
  exact sound.addReduced (ordered document present)

/-! ## Keys are never lost -/

theorem keys_subset_addReduced (builder : Builder) (document : Document) :
    builder.manifest.keys ⊆ (builder.addReduced document).manifest.keys := by
  by_cases known : document.canonicalKey ∈ builder.manifest.keys
  · rw [addReduced_of_mem known]
    exact List.Subset.refl _
  · rw [addReduced_of_not_mem known]
    simp [Manifest.keys, Manifest.push]

theorem key_mem_addReduced (builder : Builder) (document : Document) :
    document.canonicalKey ∈ (builder.addReduced document).manifest.keys := by
  by_cases known : document.canonicalKey ∈ builder.manifest.keys
  · rw [addReduced_of_mem known]
    exact known
  · rw [addReduced_of_not_mem known]
    simp [Manifest.keys, Manifest.push]

theorem keys_subset_foldl (builder : Builder) (reductions : List Document) :
    builder.manifest.keys ⊆ (reductions.foldl addReduced builder).manifest.keys := by
  induction reductions generalizing builder with
  | nil => exact List.Subset.refl _
  | cons document rest ih =>
      exact List.Subset.trans (keys_subset_addReduced builder document) (ih _)

/-- After a run every reduced document has an entry under its key. -/
theorem key_mem_foldl {builder : Builder} (present : document ∈ reductions) :
    document.canonicalKey ∈ (reductions.foldl addReduced builder).manifest.keys := by
  induction reductions generalizing builder with
  | nil => cases present
  | cons first rest ih =>
      rcases List.mem_cons.1 present with rfl | later
      · exact keys_subset_foldl _ rest (key_mem_addReduced builder document)
      · exact ih later

/-! ## Calls -/

theorem addDocument_eq_ok :
    builder.addDocument document = .ok after ↔
      ∃ reductions, builder.pipeline.reductions document = .ok reductions ∧
        reductions.foldl addReduced builder = after := by
  rw [addDocument, bind_eq_ok]
  simp only [pure_eq_ok]

theorem reductions_eq_ok {pipeline : Pipeline} :
    pipeline.reductions document = .ok reductions ↔
      ∃ transformed, pipeline.run document = .ok transformed ∧
        List.Forall₂ (fun operation reduced => transformed.reduce operation = .ok reduced)
          transformed.operations reductions := by
  rw [Pipeline.reductions, bind_eq_ok]
  simp only [mapM_eq_ok]

/-- Everything that a pipeline hands to a builder is in canonical order. -/
theorem sorted_of_reductions {pipeline : Pipeline}
    (succeeded : pipeline.reductions document = .ok reductions) :
    ∀ reduced ∈ reductions, reduced.sorted = reduced := by
  rcases reductions_eq_ok.1 succeeded with ⟨transformed, _, each⟩
  intro reduced present
  rcases exists_of_mem_forall₂ each present with ⟨operation, _, reduces⟩
  exact Document.sorted_of_reduce reduces

/-- Hence its key is its text. -/
theorem canonicalKey_of_reductions {pipeline : Pipeline}
    (succeeded : pipeline.reductions document = .ok reductions) :
    ∀ reduced ∈ reductions, reduced.canonicalKey = reduced.print := by
  intro reduced present
  rw [Document.canonicalKey, sorted_of_reductions succeeded reduced present]

theorem Sound.addDocument (sound : builder.Sound)
    (succeeded : builder.addDocument document = .ok after) : after.Sound := by
  rcases addDocument_eq_ok.1 succeeded with ⟨reductions, reduced, rfl⟩
  exact sound.foldl_addReduced (sorted_of_reductions reduced)

/-- A call of a builder. -/
inductive Call where
  | document (document : Document)
  | source (text : String)

/-- What a call does; one that fails leaves the builder as it was. -/
def call (builder : Builder) (call : Call) : Builder :=
  let result := match call with
    | .document document => builder.addDocument document
    | .source text => builder.addSource text
  match result with
  | .ok after => after
  | .error _ => builder

/-- A builder after any sequence of calls. -/
def run (pipeline : Pipeline) (calls : List Call) : Builder := calls.foldl call (new pipeline)

/-- The document is handed over in the call, itself or as a text. -/
def Call.Gives : Call → Document → Prop
  | .document given, document => given = document
  | .source text, document => readDocument text = .ok document

theorem addSource_eq_ok {text : String} (succeeded : builder.addSource text = .ok after) :
    after = builder ∨ ∃ document, readDocument text = .ok document ∧
      builder.addDocument document = .ok after := by
  rw [addSource] at succeeded
  split at succeeded
  · exact .inl (Except.ok.inj succeeded).symm
  · exact .inr (bind_eq_ok.1 succeeded)

/-- A call changes nothing, or it adds what is left of the document that it gives. -/
theorem call_cases (builder : Builder) (call : Call) :
    builder.call call = builder ∨ ∃ document, call.Gives document ∧
      builder.addDocument document = .ok (builder.call call) := by
  cases call with
  | document given =>
      cases result : builder.addDocument given with
      | error _ => exact .inl (by simp [Builder.call, result])
      | ok after => exact .inr ⟨given, rfl, by simp [Builder.call, result]⟩
  | source text =>
      cases result : builder.addSource text with
      | error _ => exact .inl (by simp [Builder.call, result])
      | ok after =>
          have same : builder.call (.source text) = after := by simp [Builder.call, result]
          rw [same]
          exact addSource_eq_ok result

theorem Sound.call (sound : builder.Sound) (call : Call) : (builder.call call).Sound := by
  rcases builder.call_cases call with same | ⟨document, _, added⟩
  · rw [same]
    exact sound
  · exact sound.addDocument added

/-- Every run keeps the numbering and the keys. -/
theorem sound_run (pipeline : Pipeline) (calls : List Call) : (run pipeline calls).Sound := by
  apply List.foldlRecOn calls Builder.call (sound_new pipeline)
  intro before sound call _
  exact sound.call call

end Builder

end PersistedDocuments
