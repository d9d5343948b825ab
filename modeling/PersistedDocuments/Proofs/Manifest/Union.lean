import PersistedDocuments.Proofs.Manifest.Builder
import PersistedDocuments.Proofs.Manifest.Merge
import PersistedDocuments.Typename

/-!
# Merging instead of one builder

Documents may be made into manifests one by one and merged, or be given to one builder: the result
is the same manifest. A builder numbers without a gap, so the number that merging takes next is the
one that the builder gives next. Hence a builder that starts anew and whose entries are then taken
over stays in step with a builder that goes on.
-/

namespace PersistedDocuments

open GraphQL

theorem foldl_max_range' (n : Nat) : (List.range' 1 n).foldl max 0 = n := by
  induction n with
  | zero => rfl
  | succ n ih =>
      rw [List.range'_1_concat, List.foldl_append, ih, List.foldl_cons, List.foldl_nil]
      omega

namespace Builder

variable {builder fresh : Builder} {start : Manifest} {document : Document}
  {reductions : List Document}

/-- The largest number of a manifest is the one that its builder gave last. -/
theorem Sound.maxNumber (sound : builder.Sound) : builder.manifest.maxNumber = builder.last := by
  have numbers : (builder.manifest.entries.filterMap fun entry => entry.id.number?) =
      List.range' 1 builder.last := by
    have ofIds := congrArg (List.filterMap QueryId.number?) sound.ids
    rw [List.filterMap_map, List.filterMap_map] at ofIds
    exact ofIds.trans List.filterMap_some
  rw [Manifest.maxNumber, numbers, foldl_max_range']

/-- What is taken over next gets the number that the builder gives next. -/
theorem Sound.nextId (sound : builder.Sound) :
    builder.manifest.nextId = .number (builder.last + 1) := by
  rw [Manifest.nextId, sound.maxNumber, freeNumber_of_not_mem]
  intro taken
  rw [sound.idTexts, List.mem_map] at taken
  rcases taken with ⟨n, given, sameText⟩
  cases QueryId.toText_number_inj.1 sameText
  have bound := List.mem_range'_1.1 given
  omega

theorem Sound.adopt (sound : builder.Sound) (id : QueryId) (document : Document) :
    builder.manifest.adopt ⟨document.canonicalKey, id, document⟩ =
      (builder.addReduced document).manifest := by
  rw [Manifest.adopt, Manifest.add, sound.nextId]
  by_cases known : document.canonicalKey ∈ builder.manifest.keys
  · rw [addReduced_of_mem known]
    exact dif_pos known
  · rw [addReduced_of_not_mem known]
    exact dif_neg known

/-- A builder that starts anew and one that goes on stay in step: adding a document to both keeps
the entries of the first, taken over, the manifest of the second. -/
theorem Sound.merge_addReduced (sound : builder.Sound)
    (inStep : start.merge fresh.manifest = builder.manifest) (document : Document) :
    start.merge (fresh.addReduced document).manifest = (builder.addReduced document).manifest := by
  by_cases known : document.canonicalKey ∈ fresh.manifest.keys
  · have alsoKnown : document.canonicalKey ∈ builder.manifest.keys :=
      inStep ▸ Manifest.mem_keys_merge.2 (.inr known)
    rw [addReduced_of_mem known, addReduced_of_mem alsoKnown, inStep]
  · rw [← sound.adopt (.number (fresh.last + 1)), ← inStep, addReduced_of_not_mem known,
      Manifest.merge_push]

theorem Sound.merge_foldl_addReduced (sound : builder.Sound)
    (inStep : start.merge fresh.manifest = builder.manifest)
    (ordered : ∀ document ∈ reductions, document.sorted = document) :
    start.merge (reductions.foldl Builder.addReduced fresh).manifest =
      (reductions.foldl Builder.addReduced builder).manifest := by
  induction reductions generalizing builder fresh with
  | nil => exact inStep
  | cons document rest ih =>
      rcases List.forall_mem_cons.1 ordered with ⟨first, later⟩
      exact ih (sound.addReduced first) (sound.merge_addReduced inStep document) later

end Builder

namespace Manifest

variable {pipeline : Pipeline}

theorem ofDocument_eq_ok {document : Document} {manifest : Manifest} :
    ofDocument pipeline document = .ok manifest ↔
      ∃ reductions, pipeline.reductions document = .ok reductions ∧
        (reductions.foldl Builder.addReduced (Builder.new pipeline)).manifest = manifest := by
  simp only [ofDocument, bind_eq_ok, pure_eq_ok, Builder.addDocument_eq_ok]
  constructor
  · rintro ⟨_, ⟨reductions, reduced, rfl⟩, same⟩
    exact ⟨reductions, reduced, same⟩
  · rintro ⟨reductions, reduced, same⟩
    exact ⟨_, ⟨reductions, reduced, rfl⟩, same⟩

/-- Merging the manifest of a document is adding the document. -/
theorem addDocument_of_ofDocument {builder : Builder} {document : Document} {manifest : Manifest}
    (sound : builder.Sound) (built : ofDocument builder.pipeline document = .ok manifest) :
    ∃ after, builder.addDocument document = .ok after ∧ after.Sound ∧
      after.pipeline = builder.pipeline ∧ after.manifest = builder.manifest.merge manifest := by
  rcases ofDocument_eq_ok.1 built with ⟨reductions, reduced, rfl⟩
  have ordered := Builder.sorted_of_reductions reduced
  refine ⟨reductions.foldl Builder.addReduced builder,
    Builder.addDocument_eq_ok.2 ⟨reductions, reduced, rfl⟩, sound.foldl_addReduced ordered,
    Builder.pipeline_foldl builder reductions, ?_⟩
  exact (sound.merge_foldl_addReduced rfl ordered).symm

/-- Merging the manifests of several documents is adding the documents one after the other. -/
theorem foldlM_addDocument_of_ofDocument {builder : Builder} {documents : List Document}
    {manifests : List Manifest} (sound : builder.Sound)
    (built : List.Forall₂ (fun document manifest =>
      ofDocument builder.pipeline document = .ok manifest) documents manifests) :
    ∃ after, documents.foldlM Builder.addDocument builder = .ok after ∧
      after.manifest = manifests.foldl merge builder.manifest := by
  generalize same : builder.pipeline = pipeline at built
  induction built generalizing builder with
  | nil => exact ⟨builder, rfl, rfl⟩
  | cons first _ ih =>
      rcases addDocument_of_ofDocument sound (same ▸ first) with
        ⟨between, added, stillSound, samePipeline, merged⟩
      rcases ih stillSound (samePipeline.trans same) with ⟨after, rest, folded⟩
      refine ⟨after, ?_, by rw [folded, merged, List.foldl_cons]⟩
      rw [List.foldlM_cons, added]
      exact rest

/-- If each of several documents can be made into a manifest, one builder accepts them all, and
what it holds then is the first manifest with the others merged into it one after the other. -/
theorem foldl_merge_eq {documents : List Document} {first : Manifest} {others : List Manifest}
    (built : documents.mapM (ofDocument pipeline) = .ok (first :: others)) :
    ∃ builder, documents.foldlM Builder.addDocument (Builder.new pipeline) = .ok builder ∧
      others.foldl merge first = builder.manifest := by
  cases mapM_eq_ok.1 built with
  | @cons document _ rest _ firstBuilt othersBuilt =>
      rcases ofDocument_eq_ok.1 firstBuilt with ⟨reductions, reduced, rfl⟩
      let builder := reductions.foldl Builder.addReduced (Builder.new pipeline)
      have added : (Builder.new pipeline).addDocument document = .ok builder :=
        Builder.addDocument_eq_ok.2 ⟨reductions, reduced, rfl⟩
      have sound : builder.Sound := (Builder.sound_new pipeline).addDocument added
      have samePipeline : builder.pipeline = pipeline := Builder.pipeline_foldl _ reductions
      rw [← samePipeline] at othersBuilt
      rcases foldlM_addDocument_of_ofDocument sound othersBuilt with ⟨after, accepted, merged⟩
      refine ⟨after, ?_, merged.symm⟩
      rw [List.foldlM_cons, added]
      exact accepted

/-- Three documents whose manifests all number from one on: the second repeats the query of the
first before one of its own, and the third repeats that one. -/
theorem foldl_merge_eq_of_overlap :
    let query (name : String) : Operation :=
      ⟨some ⟨.nowhere, .query, some name, [], []⟩, .nowhere,
        [.field ⟨.nowhere, none, "a", [], []⟩ .nowhere []]⟩
    let a : Document := .ofOperation (query "A")
    let ab : Document := ⟨[.operation (query "A"), .operation (query "B")]⟩
    let b : Document := .ofOperation (query "B")
    ∃ first second third builder,
      [a, ab, b].mapM (ofDocument [.addTypename]) = .ok [first, second, third] ∧
      [a, ab, b].foldlM Builder.addDocument (Builder.new [.addTypename]) = .ok builder ∧
      (first.merge second).merge third = builder.manifest ∧
      builder.manifest.entries.map Entry.id = [.number 1, .number 2] := by
  intro query a ab b
  have reduceA : Pipeline.reductions [.addTypename] a = .ok [a] := by cbv
  have reduceAB : Pipeline.reductions [.addTypename] ab = .ok [a, b] := by cbv
  have reduceB : Pipeline.reductions [.addTypename] b = .ok [b] := by cbv
  have built : [a, ab, b].mapM (ofDocument [.addTypename]) = .ok _ :=
    mapM_eq_ok.2 (.cons (ofDocument_eq_ok.2 ⟨_, reduceA, rfl⟩)
      (.cons (ofDocument_eq_ok.2 ⟨_, reduceAB, rfl⟩)
        (.cons (ofDocument_eq_ok.2 ⟨_, reduceB, rfl⟩) .nil)))
  rcases foldl_merge_eq built with ⟨builder, accepted, merged⟩
  refine ⟨_, _, _, builder, built, accepted, merged, ?_⟩
  rw [← merged]
  cbv

end Manifest

end PersistedDocuments
