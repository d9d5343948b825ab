import Mathlib
import PersistedDocuments.Client
import PersistedDocuments.Proofs.Json.QueryId
import PersistedDocuments.Proofs.Manifest.Builder
import PersistedDocuments.Proofs.Manifest.Merge
import PersistedDocuments.Proofs.Resolver
import PersistedDocuments.Proofs.Store
import PersistedDocuments.Typename

/-!
# From client to server

A manifest that comes from builders and merges has identifiers with distinct texts, and each of its
documents is printed as the key under which it stands. Hence what a client sends in the place of a
query is turned back by the server into the canonical text of that very query.
-/

namespace PersistedDocuments

open GraphQL

namespace Manifest

/-- The manifests that builders and merges make, as long as the identifiers fit. -/
inductive Built : Manifest → Prop
  | empty : Built .empty
  | run (pipeline : Pipeline) (calls : List Builder.Call)
      (fits : (Builder.run pipeline calls).manifest.IdsFit) :
      Built (Builder.run pipeline calls).manifest
  | merge {a b : Manifest} (left : Built a) (right : Built b) (fits : (a.merge b).IdsFit) :
      Built (a.merge b)

/-- A manifest from which a server can answer what clients send. -/
structure Deliverable (manifest : Manifest) : Prop where
  nodup_idTexts : manifest.idTexts.Nodup
  printed : ∀ entry ∈ manifest.entries, entry.document.print = entry.key
  idsFit : manifest.IdsFit

theorem Deliverable.merge {a b : Manifest} (left : a.Deliverable) (right : b.Deliverable)
    (fits : (a.merge b).IdsFit) : (a.merge b).Deliverable where
  nodup_idTexts := nodup_idTexts_merge left.nodup_idTexts
  printed := by
    intro entry present
    rcases exists_of_mem_merge present with ⟨source, origin, sameKey, sameDocument⟩
    rw [sameKey, sameDocument]
    rcases origin with fromLeft | fromRight
    · exact left.printed source fromLeft
    · exact right.printed source fromRight
  idsFit := fits

end Manifest

namespace Builder.Sound

variable {builder : Builder} (sound : builder.Sound)

include sound

/-- Consecutive numbers have distinct texts. -/
theorem nodup_idTexts : builder.manifest.idTexts.Nodup := by
  rw [sound.idTexts]
  exact List.Pairwise.map _ (fun _ _ different same => different (QueryId.toText_number_inj.1 same))
    List.nodup_range'

end Builder.Sound

/-- Builders and merges make manifests from which a server can answer. -/
theorem Manifest.Built.deliverable {manifest : Manifest} (built : manifest.Built) :
    manifest.Deliverable := by
  induction built with
  | empty =>
      exact ⟨List.nodup_nil, fun _ present => (nomatch present), fun _ present => (nomatch present)⟩
  | run pipeline calls fits =>
      have sound := Builder.sound_run pipeline calls
      exact ⟨sound.nodup_idTexts, sound.printed, fits⟩
  | merge _ _ fits left right => exact left.merge right fits

/-! ## Requests -/

/-- The JSON form of a request by identifier: its first member is the identifier, and it has no
query. -/
theorem PersistedRequest.toJson_eq (request : PersistedRequest) :
    ∃ members, request.toJson = .object (("id", request.subject.toJson) :: members) ∧
      "query" ∉ (("id", request.subject.toJson) :: members).map Prod.fst := by
  refine ⟨_, rfl, ?_⟩
  cases request.variableValues <;> cases request.operationName <;> simp

namespace Resolver

variable {store : Store} {request : PersistedRequest} {query : String}

theorem resolve_of_fetch (found : store.fetch request.subject = .ok query) :
    resolve ⟨store, true⟩ request =
      .ok ⟨query, request.variableValues, request.operationName⟩ := by
  rw [resolve_eq, found]
  rfl

/-- Resolving the JSON form of a request adds the text of the query and changes nothing else. -/
theorem resolveBody_of_fetch (found : store.fetch request.subject = .ok query)
    (fits : ∀ n, request.subject = .number n → n < QueryId.limit) :
    ∃ members, request.toJson = .object members ∧
      resolveBody ⟨store, true⟩ request.toJson =
        .ok (.object (members ++ [("query", .string query)])) := by
  rcases request.toJson_eq with ⟨members, json, absent⟩
  refine ⟨_, json, ?_⟩
  have named : Json.Members.get? (("id", request.subject.toJson) :: members) "id" =
      some request.subject.toJson := List.lookup_cons_self
  have denotes := QueryId.ofJson?_eq_some_iff.1 (QueryId.ofJson?_toJson fits)
  rw [json, resolveBody_of_denotes store named denotes, found, Except.map,
    Json.Members.set_of_not_mem absent]

end Resolver

/-- What an enabled client sends names the entry under the key of the request's query. -/
theorem Client.prepare_eq_ok {manifest : Manifest} {pipeline : Pipeline} {request : FullRequest}
    {persisted : PersistedRequest}
    (prepared : prepare ⟨manifest, pipeline, true⟩ request = .ok (.persisted persisted)) :
    ∃ document key entry, readDocument request.subject = .ok document ∧
      pipeline.requestKey document = .ok key ∧ entry ∈ manifest.entries ∧ entry.key = key ∧
      persisted = ⟨entry.id, request.variableValues, request.operationName⟩ := by
  rw [prepare, if_pos rfl] at prepared
  rcases bind_eq_ok.1 prepared with ⟨id, identified, same⟩
  cases pure_eq_ok.1 same
  rcases bind_eq_ok.1 identified with ⟨document, read, keyed⟩
  rcases bind_eq_ok.1 keyed with ⟨key, computed, looked⟩
  rcases bind_eq_ok.1 looked with ⟨entry, found, sameId⟩
  cases pure_eq_ok.1 sameId
  have ⟨member, sameKey⟩ := Manifest.mem_of_lookup found
  exact ⟨document, key, entry, read, computed, member, sameKey, rfl⟩

/-- A server over a manifest that builders and merges make gives back the canonical text of every
query for which a client over the same manifest sends an identifier. -/
theorem Manifest.Built.resolve_prepare {manifest : Manifest} (built : manifest.Built) :
    ∃ store, Store.ofManifest manifest = .ok store ∧
      ∀ (pipeline : Pipeline) (request : FullRequest),
        (∀ persisted,
          Client.prepare ⟨manifest, pipeline, true⟩ request = .ok (.persisted persisted) →
          ∃ document key, readDocument request.subject = .ok document ∧
            pipeline.requestKey document = .ok key ∧
            Resolver.resolve ⟨store, true⟩ persisted =
              .ok ⟨key, request.variableValues, request.operationName⟩ ∧
            ∃ members, persisted.toJson = .object members ∧
              Resolver.resolveBody ⟨store, true⟩ persisted.toJson =
                .ok (.object (members ++ [("query", .string key)]))) ∧
        ∀ document key, readDocument request.subject = .ok document →
          pipeline.requestKey document = .ok key → key ∉ manifest.keys →
          Client.prepare ⟨manifest, pipeline, true⟩ request = .error .unknownKey := by
  have deliverable := built.deliverable
  rcases Store.ofManifest_of_nodup deliverable.nodup_idTexts with ⟨store, made, fetched⟩
  refine ⟨store, made, fun pipeline request => ⟨?_, ?_⟩⟩
  · intro persisted prepared
    obtain ⟨document, key, entry, read, computed, member, sameKey, rfl⟩ :=
      Client.prepare_eq_ok prepared
    have found : store.fetch entry.id = .ok key := by
      rw [fetched entry member, deliverable.printed entry member, sameKey]
    exact ⟨document, key, read, computed, Resolver.resolve_of_fetch found,
      Resolver.resolveBody_of_fetch found (deliverable.idsFit entry member)⟩
  · intro document key read computed absent
    rw [Client.prepare, if_pos rfl, Client.queryId, read]
    simp only [bind, Except.bind, computed, Manifest.lookup_of_not_mem_keys absent]

/-- The merge of what two builders collected, each after a call that failed or added nothing, and a
query in another layout. -/
theorem Manifest.Built.resolve_prepare_merged :
    ∃ manifest : Manifest, manifest.Built ∧
      Client.prepare ⟨manifest, [], true⟩ ⟨"\x7bb\x7d", none, none⟩ =
        .ok (.persisted ⟨.number 2, none, none⟩) ∧
      ∃ store, Store.ofManifest manifest = .ok store ∧
        Resolver.resolve ⟨store, true⟩ ⟨.number 2, none, none⟩ =
          .ok ⟨"\x7b\n  b\n\x7d\n", none, none⟩ := by
  have first :
      (Builder.run [.addTypename] [.source "\x7b a \x7d", .source "\x7b"]).manifest.IdsFit := by
    apply idsFit_of_ids [1] (by decide)
    cbv
  have second : (Builder.run [] [.source " ", .source "\x7b b \x7d"]).manifest.IdsFit := by
    apply idsFit_of_ids [1] (by decide)
    cbv
  have both : ((Builder.run [.addTypename] [.source "\x7b a \x7d", .source "\x7b"]).manifest.merge
      (Builder.run [] [.source " ", .source "\x7b b \x7d"]).manifest).IdsFit := by
    apply idsFit_of_ids [1, 2] (by decide)
    cbv
  have built := Built.merge (.run _ _ first) (.run _ _ second) both
  rcases built.resolve_prepare with ⟨store, made, answers⟩
  have prepared : Client.prepare ⟨(Builder.run [.addTypename]
      [.source "\x7b a \x7d", .source "\x7b"]).manifest.merge
      (Builder.run [] [.source " ", .source "\x7b b \x7d"]).manifest, [], true⟩
      ⟨"\x7bb\x7d", none, none⟩ =
      .ok (.persisted ⟨.number 2, none, none⟩) := by cbv
  rcases (answers [] _).1 _ prepared with ⟨document, key, read, computed, resolved, _⟩
  have text : (readDocument "\x7bb\x7d" >>= fun document => Pipeline.requestKey [] document) =
      .ok "\x7b\n  b\n\x7d\n" := by cbv
  have same : key = "\x7b\n  b\n\x7d\n" := by
    rw [read] at text
    exact Except.ok.inj (computed.symm.trans text)
  exact ⟨_, built, prepared, store, made, same ▸ resolved⟩

end PersistedDocuments
