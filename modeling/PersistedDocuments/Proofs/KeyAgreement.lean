import Mathlib
import PersistedDocuments.Proofs.Manifest.Collection
import PersistedDocuments.Proofs.Manifest.Union
import PersistedDocuments.Proofs.Rewriting

/-!
# Extraction and requests agree on keys

Extraction runs the pipeline on a whole document and reduces afterwards, while a request is reduced
first. For pipelines that change every definition on its own both ways lead to one key, whatever
else the two documents hold and in whatever order.
-/

namespace PersistedDocuments

open GraphQL

/-- Fragments of one name stand in one order in both documents; fragments of different names may be
ordered as they like. -/
def GraphQL.Document.SharesFragments (document other : Document) : Prop :=
  ∀ name, document.fragments.filter (fun fragment => fragment.name = name) =
    other.fragments.filter (fun fragment => fragment.name = name)

namespace GraphQL.Document

theorem SharesFragments.fragment? {document other : Document}
    (shares : document.SharesFragments other) (name : String) :
    document.fragment? name = other.fragment? name := by
  rw [Document.fragment?, ← List.head?_filter, shares name, List.head?_filter, Document.fragment?]

/-- Documents with the same fragments reduce an operation in the same way. -/
theorem SharesFragments.reduce {document other : Document}
    (shares : document.SharesFragments other) (operation : Operation) :
    document.reduce operation = other.reduce operation :=
  reduce_congr fun name _ => shares.fragment? name

end GraphQL.Document

/-- The reductions of a changed document are the changed reductions. -/
theorem Rewriting.mapM_reduce_run (rewriting : Rewriting) (document : Document) :
    (rewriting.run document).operations.mapM (rewriting.run document).reduce =
      (document.operations.mapM document.reduce).map (List.map rewriting.run) := by
  rw [operations_run, List.mapM_map, ← mapM_map_result]
  congr 1
  funext operation
  exact rewriting.reduce_run document operation

namespace Pipeline

variable {pipeline : Pipeline} {document request : Document} {operation : Operation}

/-- A request's key is the key of its reduction. -/
theorem requestKey_of_operations (only : request.operations = [operation]) :
    pipeline.requestKey request = (request.reduce operation).bind pipeline.documentKey := by
  rw [requestKey, only]
  rfl

section Runs

variable {rewriting : Rewriting}
variable (runs : ∀ document, pipeline.run document = .ok (rewriting.run document))

include runs

theorem documentKey_of_runs (document : Document) :
    pipeline.documentKey document = .ok (rewriting.run document).canonicalKey := by
  rw [documentKey, runs]
  rfl

theorem reductions_of_runs (document : Document) :
    pipeline.reductions document =
      (document.operations.mapM document.reduce).map (List.map rewriting.run) := by
  rw [← rewriting.mapM_reduce_run, reductions, runs]
  rfl

/-- Running the pipeline after the reduction gives the same key as reducing after the pipeline. -/
theorem documentKey_reduce :
    (document.reduce operation).bind pipeline.documentKey =
      ((rewriting.run document).reduce (rewriting.operation operation)).map
        Document.canonicalKey := by
  rw [rewriting.reduce_run]
  cases document.reduce operation with
  | error failure => rfl
  | ok reduced => exact documentKey_of_runs runs reduced

end Runs

end Pipeline

/-- Extraction keeps an entry for the reduction of every operation. -/
theorem Manifest.lookup_of_reduce {pipeline : Pipeline} {document transformed : Document}
    {manifest : Manifest} {operation : Operation} {i : Nat}
    (built : Manifest.ofDocument pipeline document = .ok manifest)
    (ran : pipeline.run document = .ok transformed)
    (place : transformed.operations[i]? = some operation) :
    ∃ reduced entry, transformed.reduce operation = .ok reduced ∧
      manifest.lookup reduced.canonicalKey = .ok entry ∧ entry.key = reduced.canonicalKey ∧
      entry.document.print = reduced.canonicalKey := by
  rcases bind_eq_ok.1 built with ⟨builder, added, same⟩
  cases same
  rcases Builder.addDocument_eq_ok.1 added with ⟨reductions, reducedAll, rfl⟩
  rcases Builder.reductions_eq_ok.1 reducedAll with ⟨_, ranAgain, each⟩
  cases ran.symm.trans ranAgain
  rcases exists_getElem?_of_forall₂ each place with ⟨reduced, among, reduces⟩
  have present : reduced.canonicalKey ∈
      (reductions.foldl Builder.addReduced (.new pipeline)).manifest.keys :=
    Builder.key_mem_foldl (List.mem_of_getElem? among)
  have sound := (Builder.sound_new pipeline).addDocument added
  rcases sound.lookup_of_mem_keys present with ⟨entry, _, found⟩
  exact ⟨reduced, entry, reduces, found⟩

/-- For every operation of a document, the key of a request that holds the operation and the
document's fragments is the key under which extraction puts the operation. -/
theorem Pipeline.requestKey_eq_extracted :
    Transformer.addTypename.IsRewriting ∧
    ∀ pipeline : Pipeline, (∀ transformer ∈ pipeline, transformer.IsRewriting) →
    ∀ (document request : Document) (i : Nat) (operation : Operation),
      document.operations[i]? = some operation →
      request.operations = [operation] → request.SharesFragments document →
      (∃ transformed extracted, pipeline.run document = .ok transformed ∧
        transformed.operations[i]? = some extracted ∧
        pipeline.requestKey request =
          (transformed.reduce extracted).map Document.canonicalKey) ∧
      (∀ failure, pipeline.requestKey request = .error failure →
        ∃ name, failure = .missingFragment name) ∧
      ∀ manifest, Manifest.ofDocument pipeline document = .ok manifest →
        ∃ key entry, pipeline.requestKey request = .ok key ∧
          manifest.lookup key = .ok entry ∧ entry.key = key ∧ entry.document.print = key := by
  refine ⟨Transformer.isRewriting_addTypename, ?_⟩
  intro pipeline rewritings document request i operation place only shares
  rcases Pipeline.exists_rewriting rewritings with ⟨rewriting, runs⟩
  have transformedPlace :
      (rewriting.run document).operations[i]? = some (rewriting.operation operation) := by
    rw [Rewriting.operations_run, List.getElem?_map, place]
    rfl
  have sameKey : pipeline.requestKey request =
      ((rewriting.run document).reduce (rewriting.operation operation)).map
        Document.canonicalKey := by
    rw [requestKey_of_operations only, shares.reduce, documentKey_reduce runs]
  refine ⟨⟨_, _, runs document, transformedPlace, sameKey⟩, ?_, ?_⟩
  · intro failure failed
    rw [sameKey] at failed
    cases reduced : (rewriting.run document).reduce (rewriting.operation operation) with
    | error cause =>
        rw [reduced] at failed
        cases failed
        exact Document.reduce_eq_error reduced
    | ok result => rw [reduced] at failed; cases failed
  · intro manifest built
    rcases Manifest.lookup_of_reduce built (runs document) transformedPlace with
      ⟨reduced, entry, reduces, found, key, printed⟩
    refine ⟨reduced.canonicalKey, entry, ?_, found, key, printed⟩
    rw [sameKey, reduces]
    rfl

/-- Two fragments that spread one another, sent in the other order: the key of the request finds the
operation with both fragments, whose nested selections ask for their types. -/
theorem Pipeline.requestKey_eq_extracted_of_cycle :
    let fragment (name spread : String) (more : Selections) : Fragment :=
      ⟨.nowhere, name, "T", [], .nowhere,
        [.field ⟨.nowhere, none, "x", [], []⟩ .nowhere (.spread .nowhere spread [] :: more)]⟩
    let query : Operation := ⟨none, .nowhere, [.spread .nowhere "a" []]⟩
    let document : Document :=
      ⟨[.fragment (fragment "b" "a" []), .operation query, .fragment (fragment "a" "b" [])]⟩
    let request : Document :=
      ⟨[.fragment (fragment "a" "b" []), .fragment (fragment "b" "a" []), .operation query]⟩
    let asked : Selection := .field ⟨.nowhere, none, "__typename", [], []⟩ .nowhere []
    let stored : Document :=
      ⟨[.operation query, .fragment (fragment "a" "b" [asked]),
        .fragment (fragment "b" "a" [asked])]⟩
    let key := "\x7b\n  ...a\n\x7d\n" ++
      "\nfragment a on T \x7b\n  x \x7b\n    ...b\n    __typename\n  \x7d\n\x7d\n" ++
      "\nfragment b on T \x7b\n  x \x7b\n    ...a\n    __typename\n  \x7d\n\x7d\n"
    (∃ transformed extracted, Pipeline.run [.addTypename] document = .ok transformed ∧
      transformed.operations[0]? = some extracted ∧
      Pipeline.requestKey [.addTypename] request =
        (transformed.reduce extracted).map Document.canonicalKey) ∧
    Pipeline.requestKey [.addTypename] request = .ok key ∧
    ∃ manifest, Manifest.ofDocument [.addTypename] document = .ok manifest ∧
      manifest.lookup key = .ok ⟨key, .number 1, stored⟩ := by
  intro fragment query document request asked stored key
  have shares : request.SharesFragments document := by
    intro name
    by_cases isA : "a" = name
    · subst isA
      rfl
    · by_cases isB : "b" = name
      · subst isB
        rfl
      · change [fragment "a" "b" [], fragment "b" "a" []].filter _ =
          [fragment "b" "a" [], fragment "a" "b" []].filter _
        simp [fragment, isA, isB]
  have rewritings : ∀ transformer ∈ [Transformer.addTypename], transformer.IsRewriting := by
    intro transformer present
    cases List.mem_singleton.1 present
    exact Transformer.isRewriting_addTypename
  have reduced : Pipeline.reductions [.addTypename] document = .ok [stored] := by cbv
  have built := Manifest.ofDocument_eq_ok.2 ⟨_, reduced, rfl⟩
  have printed : stored.canonicalKey = key := by
    rw [Builder.canonicalKey_of_reductions reduced stored (by simp)]
    simp only [stored, key, query, fragment, asked]
    decide +kernel
  rcases Pipeline.requestKey_eq_extracted.2 [.addTypename] rewritings document request 0 query
    rfl rfl shares with ⟨extracted, _, finds⟩
  rcases finds _ built with ⟨requested, entry, requestKey, found, _⟩
  have present := (Manifest.mem_of_lookup found).1
  rw [Builder.entries_singleton, printed] at present
  obtain rfl := List.mem_singleton.1 present
  obtain rfl := (Manifest.mem_of_lookup found).2
  exact ⟨extracted, requestKey, _, built, found⟩

end PersistedDocuments
