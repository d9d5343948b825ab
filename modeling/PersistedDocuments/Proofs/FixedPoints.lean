import Mathlib
import PersistedDocuments.Proofs.Delivery
import PersistedDocuments.Proofs.Formatting
import PersistedDocuments.Proofs.Manifest.Union
import PersistedDocuments.Proofs.Reprinting

/-!
# Persisted documents are fixed points

What a manifest stores has been through the pipeline, a reduction and a sort. Each of them leaves it
as it is when a request goes through all of them in the other order, so the key of a stored document
is the key under which it is stored. The printed form of a stored document is another matter: it may
read as a document with other strings, and then a client does not find it.
-/

namespace PersistedDocuments

open GraphQL

/-! ## Pipelines of type names -/

namespace Pipeline

theorem run_replicate_addTypename (n : Nat) (document : Document) :
    run (List.replicate n .addTypename) document = .ok (Document.addTypename^[n] document) := by
  induction n generalizing document with
  | zero => rfl
  | succ n ih => exact ih document.addTypename

/-- Definitions that have been through a pipeline of type names are not changed by it. -/
theorem run_of_definitions_subset {n : Nat} {document transformed reduced : Document}
    (ran : run (List.replicate n .addTypename) document = .ok transformed)
    (subset : reduced.definitions ⊆ transformed.definitions) :
    run (List.replicate n .addTypename) reduced = .ok reduced := by
  rw [run_replicate_addTypename] at ran ⊢
  cases n with
  | zero => rfl
  | succ n =>
      cases ran
      have fixed : reduced.addTypename = reduced := by
        have same : reduced.definitions.map Definition.addTypename = reduced.definitions := by
          refine (List.map_congr_left fun definition present => ?_).trans (List.map_id _)
          have transformed := subset present
          rw [Function.iterate_succ_apply', Document.addTypename] at transformed
          rcases List.mem_map.1 transformed with ⟨original, _, rfl⟩
          exact original.addTypename_addTypename
        rw [Document.addTypename, same]
      rw [Function.iterate_fixed fixed]

/-- A request with a document that is its own reduction has the key of the document. -/
theorem requestKey_of_reduce_self {pipeline : Pipeline} {document : Document}
    {operation : Operation} (only : document.operations = [operation])
    (reduces : document.reduce operation = .ok document) :
    pipeline.requestKey document = pipeline.documentKey document := by
  rw [requestKey_of_operations only, reduces]
  rfl

end Pipeline

/-! ## What a manifest of one document holds -/

namespace Manifest

variable {manifest : Manifest} {entry : Entry}

theorem lookup_of_mem (present : entry ∈ manifest.entries) :
    manifest.lookup entry.key = .ok entry := by
  rcases lookup_of_mem_keys (List.mem_map_of_mem present) with ⟨other, among, sameKey, found⟩
  rw [found, List.inj_on_of_nodup_map manifest.distinct among present sameKey]

end Manifest

namespace Builder

theorem mem_foldl_addReduced {builder : Builder} {documents : List Document} {entry : Entry}
    (present : entry ∈ (documents.foldl addReduced builder).manifest.entries) :
    entry ∈ builder.manifest.entries ∨ entry.document ∈ documents := by
  induction documents generalizing builder with
  | nil => exact .inl present
  | cons document rest ih =>
      rcases ih present with earlier | later
      · rcases mem_addReduced earlier with old | rfl
        · exact .inl old
        · exact .inr List.mem_cons_self
      · exact .inr (List.mem_cons_of_mem _ later)

/-- Different entries of a builder have different identifiers. -/
theorem Sound.eq_of_id_eq {builder : Builder} (sound : builder.Sound) {entry other : Entry}
    (present : entry ∈ builder.manifest.entries) (among : other ∈ builder.manifest.entries)
    (same : entry.id = other.id) : entry = other := by
  have distinct : (builder.manifest.entries.map Entry.id).Nodup := by
    rw [sound.ids]
    exact List.Nodup.map (fun _ _ same => QueryId.number.inj same) List.nodup_range'
  exact List.inj_on_of_nodup_map distinct present among same

end Builder

/-- An entry of a builder holds the reduction of an operation of a transformed document. -/
theorem Builder.exists_reduce_of_run {pipeline : Pipeline} {calls : List Call} {entry : Entry}
    (present : entry ∈ (run pipeline calls).manifest.entries) :
    ∃ call ∈ calls, ∃ document, call.Gives document ∧
      ∃ transformed, pipeline.run document = .ok transformed ∧
        ∃ operation ∈ transformed.operations,
          transformed.reduce operation = .ok entry.document := by
  rw [run, foldl_call] at present
  have given := (mem_foldl_addReduced present).resolve_left List.not_mem_nil
  rcases List.mem_flatMap.1 given with ⟨call, made, collected⟩
  rcases call.gives_of_mem_collected collected with ⟨document, gives, reductions, reduced, among⟩
  rcases reductions_eq_ok.1 reduced with ⟨transformed, ran, each⟩
  rcases exists_of_mem_forall₂ each among with ⟨operation, present, reduces⟩
  exact ⟨call, made, document, gives, transformed, ran, operation, present, reduces⟩

/-- The manifest of a document is that of a builder after one call. -/
theorem Manifest.eq_run_of_ofDocument {pipeline : Pipeline} {document : Document}
    {manifest : Manifest} (built : Manifest.ofDocument pipeline document = .ok manifest) :
    manifest = (Builder.run pipeline [.document document]).manifest := by
  rcases ofDocument_eq_ok.1 built with ⟨reductions, reduced, rfl⟩
  rw [Builder.run, Builder.foldl_call, List.flatMap_singleton, Builder.Call.collected,
    Builder.Call.reductions, Builder.new, reduced]
  rfl

/-- An entry holds the reduction of an operation of the transformed document. -/
theorem Manifest.exists_reduce_of_ofDocument {pipeline : Pipeline} {document : Document}
    {manifest : Manifest} {entry : Entry}
    (built : Manifest.ofDocument pipeline document = .ok manifest)
    (present : entry ∈ manifest.entries) :
    ∃ transformed, pipeline.run document = .ok transformed ∧
      ∃ operation ∈ transformed.operations,
        transformed.reduce operation = .ok entry.document := by
  rw [eq_run_of_ofDocument built] at present
  rcases Builder.exists_reduce_of_run present with ⟨call, made, given, gives, reduced⟩
  cases List.mem_singleton.1 made
  cases gives
  exact reduced

/-! ## Stored documents as requests -/

namespace GraphQL

mutual
theorem Selection.spreads_mapStrings (change : Nat → String → String) (indent : Nat) :
    ∀ selection : Selection, (selection.mapStrings change indent).spreads = selection.spreads
  | .field _ _ items => by
      rw [Selection.mapStrings, Selection.spreads,
        Selections.spreads_mapStrings change (indent + 2) items, Selection.spreads]
  | .spread _ _ _ => rfl
  | .inline _ _ _ _ items => by
      rw [Selection.mapStrings, Selection.spreads,
        Selections.spreads_mapStrings change (indent + 2) items, Selection.spreads]

theorem Selections.spreads_mapStrings (change : Nat → String → String) (indent : Nat) :
    ∀ items : Selections,
      Selections.spreads (Selections.mapStrings change indent items) = Selections.spreads items
  | [] => rfl
  | selection :: rest => by
      rw [Selections.mapStrings, Selections.spreads,
        Selection.spreads_mapStrings change indent selection,
        Selections.spreads_mapStrings change indent rest, Selections.spreads]
end

end GraphQL

/-- What is written of operations and fragments, with other strings. -/
def Rewriting.written (change : Nat → String → String) : Rewriting where
  operation := fun op => op.written.mapStrings change
  fragment := fun fr => fr.mapStrings change
  spreads_operation := fun op => Selections.spreads_mapStrings change 2 op.selectionSet.items
  name_fragment := fun _ => rfl
  spreads_fragment := fun fr => Selections.spreads_mapStrings change 2 fr.selectionSet.items

theorem Rewriting.run_written (change : Nat → String → String) (document : Document) :
    (Rewriting.written change).run document = document.written.mapStrings change := by
  have same : (Rewriting.written change).definition =
      Definition.mapStrings change ∘ Definition.written := by
    funext definition
    cases definition <;> rfl
  rw [Rewriting.run, same, Document.written, Document.mapStrings, List.map_map]

/-- What the printed form of a reduction reads as has its own key as a request. -/
theorem GraphQL.Document.Reprints.requestKey {found reduced : Document}
    (reprints : found.Reprints reduced) {operation : Operation}
    (only : reduced.operations = [operation]) (reduces : reduced.reduce operation = .ok reduced)
    (n : Nat) :
    Pipeline.requestKey (List.replicate n .addTypename) found =
      Pipeline.documentKey (List.replicate n .addTypename) found := by
  have onlyWritten := (Rewriting.written rereadString).operations_run reduced
  have reducesWritten := (Rewriting.written rereadString).reduce_run reduced operation
  rw [only] at onlyWritten
  rw [reduces] at reducesWritten
  rw [Reprints, ← Rewriting.run_written] at reprints
  rw [Pipeline.requestKey_of_erase_eq n reprints,
    Pipeline.requestKey_of_reduce_self onlyWritten reducesWritten, ← Pipeline.documentKey_erase,
    ← reprints, Pipeline.documentKey_erase]

namespace Client

variable {manifest : Manifest} {pipeline : Pipeline} {enabled : Bool} {entry : Entry}
variable {text : String} {document : Document}

/-- A client finds an entry exactly if the key of the request is that of the entry. -/
theorem queryId_eq_ok_iff (distinct : ∀ other ∈ manifest.entries, other.id = entry.id →
      other = entry) (present : entry ∈ manifest.entries)
    (read : readDocument text = .ok document) :
    queryId ⟨manifest, pipeline, enabled⟩ text = .ok entry.id ↔
      pipeline.requestKey document = .ok entry.key := by
  rw [queryId, read]
  change (pipeline.requestKey document >>= fun key => do
    return (← manifest.lookup key).id) = _ ↔ _
  constructor
  · intro identified
    rcases bind_eq_ok.1 identified with ⟨key, computed, looked⟩
    rcases bind_eq_ok.1 looked with ⟨other, found, sameId⟩
    rcases Manifest.mem_of_lookup found with ⟨among, sameKey⟩
    rw [distinct other among (pure_eq_ok.1 sameId)] at sameKey
    rw [computed, sameKey]
  · intro computed
    rw [computed]
    exact bind_eq_ok.2 ⟨_, rfl, bind_eq_ok.2 ⟨entry, Manifest.lookup_of_mem present, rfl⟩⟩

end Client

/-- Every document that is stored for an operation of some document holds one operation, is printed
as its key, and has this key in every way in which a key is computed, so a client that is handed the
document finds it under its identifier. A client that is handed the text that the server has for the
identifier finds it there exactly if the strings in it are settled. -/
theorem Manifest.requestKey_of_ofDocument (n : Nat) (enabled : Bool) {document : Document}
    {manifest : Manifest}
    (built : Manifest.ofDocument (List.replicate n .addTypename) document = .ok manifest) :
    let pipeline : Pipeline := List.replicate n .addTypename
    let client : Client := ⟨manifest, pipeline, enabled⟩
    ∃ store, Store.ofManifest manifest = .ok store ∧ ∀ entry ∈ manifest.entries,
      (∃ operation, entry.document.operations = [operation]) ∧
      entry.document.print = entry.key ∧ entry.document.canonicalKey = entry.key ∧
      pipeline.documentKey entry.document = .ok entry.key ∧
      pipeline.requestKey entry.document = .ok entry.key ∧
      manifest.lookup entry.key = .ok entry ∧
      store.fetch entry.id = .ok entry.document.print ∧
      (∀ text sent, readDocument text = .ok sent → sent.erase = entry.document.erase →
        client.queryId text = .ok entry.id) ∧
      (document.Derived → document.FloatFree →
        (client.queryId entry.document.print = .ok entry.id ↔ entry.document.Settled)) := by
  intro pipeline client
  have same := eq_run_of_ofDocument built
  have sound := Builder.sound_run pipeline [.document document]
  rcases Store.ofManifest_of_nodup sound.nodup_idTexts with ⟨store, made, fetched⟩
  refine ⟨store, same ▸ made, fun entry present => ?_⟩
  rcases exists_reduce_of_ofDocument built present with
    ⟨transformed, ran, operation, among, reduces⟩
  have held : entry ∈ (Builder.run pipeline [.document document]).manifest.entries := same ▸ present
  have distinct : ∀ other ∈ manifest.entries, other.id = entry.id → other = entry :=
    fun other member sameId => sound.eq_of_id_eq (same ▸ member) held sameId
  have only := Document.operations_of_reduce reduces
  have reducesAgain := Document.reduce_of_reduce reduces
  have keyed := sound.keyed entry held
  have fixed : pipeline.run entry.document = .ok entry.document :=
    Pipeline.run_of_definitions_subset ran
      fun definition kept => Document.mem_of_mem_reduce among reduces kept
  have documentKey : pipeline.documentKey entry.document = .ok entry.key := by
    rw [Pipeline.documentKey, fixed, ← keyed]
    rfl
  have requestKey : pipeline.requestKey entry.document = .ok entry.key := by
    rw [Pipeline.requestKey_of_reduce_self only reducesAgain, documentKey]
  refine ⟨⟨operation, only⟩, sound.printed entry held, keyed, documentKey, requestKey,
    lookup_of_mem present, fetched entry held, ?_, ?_⟩
  · intro text sent read sameTree
    rw [Client.queryId_eq_ok_iff distinct present read,
      Pipeline.requestKey_of_erase_eq n sameTree]
    exact requestKey
  · intro derived floatFree
    have given : ∀ call ∈ [Builder.Call.document document], call.Printable :=
      List.forall_mem_singleton.2 ⟨derived, floatFree⟩
    rcases (Builder.printable_run n given).entries entry held with ⟨storedDerived, storedFloatFree⟩
    by_cases readable : entry.document.Readable
    · rcases storedDerived.fits.exists_reprints storedFloatFree readable with
        ⟨found, parsed, reprints⟩
      rw [Client.queryId_eq_ok_iff distinct present (readDocument_eq_ok.2 parsed), ← documentKey,
        reprints.requestKey only reducesAgain]
      exact reprints.documentKey_eq_iff storedDerived.fits storedFloatFree n
    · have read : readDocument entry.document.print = .error .breakdown := by
        rw [readDocument, storedDerived.fits.parse_print_of_not_readable storedFloatFree readable]
        rfl
      refine iff_of_false ?_ fun settled => readable settled.readable
      rw [Client.queryId, read]
      rintro ⟨⟩

/-- A query that spreads a fragment with a nested selection set, stored with a type name in it. -/
theorem Manifest.requestKey_of_ofDocument_of_fragment :
    let field (column : Nat) (name : String) : Selection :=
      .field ⟨⟨1, column⟩, none, name, [], []⟩ ⟨⟨1, column⟩, ⟨1, column⟩⟩ []
    let query : Operation := ⟨none, ⟨⟨1, 1⟩, ⟨1, 6⟩⟩, [.spread ⟨1, 2⟩ "f" []]⟩
    let fragment (items : Selections) : Fragment :=
      ⟨⟨1, 7⟩, "f", "T", [], ⟨⟨1, 22⟩, ⟨1, 27⟩⟩,
        [.field ⟨⟨1, 23⟩, none, "a", [], []⟩ ⟨⟨1, 24⟩, ⟨1, 26⟩⟩ items]⟩
    let given : Document := ⟨[.operation query, .fragment (fragment [field 25 "b"])]⟩
    let stored : Document :=
      ⟨[.operation query, .fragment (fragment [field 25 "b", field 26 "__typename"])]⟩
    ∃ manifest, Manifest.ofDocument [.addTypename] given = .ok manifest ∧
      manifest.entries = [⟨stored.print, .number 1, stored⟩] ∧
      Pipeline.requestKey [.addTypename] stored = .ok stored.print ∧
      Client.queryId ⟨manifest, [.addTypename], true⟩ stored.print = .ok (.number 1) := by
  intro field query fragment given stored
  have parsed : Document.parse "\x7b...f\x7dfragment f on T\x7ba\x7bb\x7d\x7d" = .ok given := by cbv
  have reduced : Pipeline.reductions [.addTypename] given = .ok [stored] := by cbv
  have printed := Builder.canonicalKey_of_reductions reduced stored List.mem_cons_self
  have built := ofDocument_eq_ok.2 ⟨_, reduced, rfl⟩
  have held : ([stored].foldl Builder.addReduced (Builder.new [.addTypename])).manifest.entries =
      [⟨stored.print, .number 1, stored⟩] := by
    rw [Builder.entries_singleton, printed]
  have floatFree : given.FloatFree := by
    simp only [given, query, fragment, field]
    decide
  have settled : stored.Settled := by
    simp only [stored, query, fragment, field]
    decide
  rcases requestKey_of_ofDocument 1 true built with ⟨_, _, entries⟩
  rw [held] at entries
  obtain ⟨_, _, _, _, requestKey, _, _, _, handed⟩ := entries _ List.mem_cons_self
  exact ⟨_, built, held, requestKey, (handed (.parsed parsed) floatFree).2 settled⟩

/-- A client does not find the query that a server hands out for a stored query with a form feed:
its text reads as a query with another character. -/
theorem Manifest.queryId_ne_of_formFeed :
    let given : Document := .ofOperation ⟨none, ⟨⟨1, 1⟩, ⟨1, 11⟩⟩,
      [.field ⟨⟨1, 2⟩, none, "a", [("b", .string "\x0c")], []⟩ ⟨⟨1, 2⟩, ⟨1, 2⟩⟩ []]⟩
    Document.parse "\x7ba(b:\"\\f\")\x7d" = .ok given ∧
    ∃ manifest store entry, Manifest.ofDocument [] given = .ok manifest ∧
      manifest.entries = [entry] ∧ Store.ofManifest manifest = .ok store ∧
      store.fetch entry.id = .ok entry.document.print ∧
      Client.queryId ⟨manifest, [], true⟩ entry.document.print = .error .unknownKey := by
  intro given
  have reduced : Pipeline.reductions [] given = .ok [given] := by cbv
  have held : ([given].foldl Builder.addReduced (Builder.new [])).manifest.entries =
      [⟨given.canonicalKey, .number 1, given⟩] := Builder.entries_singleton [] given
  have distinct : ([given].foldl Builder.addReduced (Builder.new [])).manifest.idTexts.Nodup := by
    rw [Manifest.idTexts, held]
    exact List.nodup_singleton _
  rcases Store.ofManifest_of_nodup distinct with ⟨store, made, fetched⟩
  rw [held] at fetched
  have missed : Client.queryId
      ⟨([given].foldl Builder.addReduced (Builder.new [])).manifest, [], true⟩ given.print =
      .error .unknownKey := by cbv
  exact ⟨by cbv, _, store, _, ofDocument_eq_ok.2 ⟨_, reduced, rfl⟩, held, made,
    fetched _ List.mem_cons_self, missed⟩

end PersistedDocuments
