import Mathlib
import PersistedDocuments.Proofs.Request
import PersistedDocuments.Resolver

/-!
# Resolved bodies

A body with an identifier gets the text of the query, in the place of one that the client sent or
behind its other members, and keeps those as they are. A body that is read as a request as well is
answered like that request.
-/

namespace PersistedDocuments

open Json

namespace QueryId

/-- The identifiers that values stand for: integers of 64 bits and texts. -/
inductive Denotes : Value → QueryId → Prop
  | number {n : Nat} (fits : n < UInt64.size) : Denotes (.int n) (.number n)
  | text (s : String) : Denotes (.string s) (.text s)

theorem ofJson?_eq_some_iff {value : Value} {id : QueryId} :
    ofJson? value = some id ↔ Denotes value id := by
  constructor
  · intro stands
    rw [ofJson?.eq_def] at stands
    split at stands
    · split at stands
      · next fits =>
          cases stands
          exact .number fits
      · cases stands
    · cases stands
      exact .text _
    · cases stands
  · rintro (⟨fits⟩ | _)
    · exact if_pos fits
    · rfl

end QueryId

/-- The parts of a request stand in the object that makes it. -/
theorem PersistedRequest.ofMembers?_eq_some {members : Members} {request : PersistedRequest}
    (makes : ofMembers? members = some request) :
    ∃ value, Members.get? members "id" = some value ∧ QueryId.ofJson? value = some request.subject := by
  rcases Option.bind_eq_some_iff.1 makes with ⟨value, found, rest⟩
  rcases Option.bind_eq_some_iff.1 rest with ⟨id, stands, rest⟩
  rcases Option.bind_eq_some_iff.1 rest with ⟨text, _, same⟩
  cases same
  exact ⟨value, found, stands⟩

namespace Resolver

variable (store : Store) {body id : Value} {members : Members} {queryId : QueryId}

theorem resolveBody_of_none (absent : body.get? "id" = none) :
    resolveBody ⟨store, true⟩ body = .ok body := by
  cases body with
  | object members =>
      have absent : Members.get? members "id" = none := absent
      rw [resolveBody, if_pos rfl]
      dsimp only
      rw [absent]
  | _ => rfl

theorem resolveBody_of_not_denotes (present : body.get? "id" = some id)
    (unlike : ∀ queryId, ¬QueryId.Denotes id queryId) :
    resolveBody ⟨store, true⟩ body = .error (.json .mismatched) := by
  cases body with
  | object members =>
      have present : Members.get? members "id" = some id := present
      have nothing : QueryId.ofJson? id = none := by
        rw [Option.eq_none_iff_forall_ne_some]
        intro queryId stands
        exact unlike queryId (QueryId.ofJson?_eq_some_iff.1 stands)
      rw [resolveBody, if_pos rfl]
      dsimp only
      rw [present]
      dsimp only
      rw [nothing]
  | _ => cases present

/-- A body with an identifier has its query set to what the store has for the identifier. -/
theorem resolveBody_of_denotes (present : Members.get? members "id" = some id)
    (denotes : QueryId.Denotes id queryId) :
    resolveBody ⟨store, true⟩ (.object members) =
      (store.fetch queryId).map fun query => .object (Members.set "query" (.string query) members)
    := by
  rw [resolveBody, if_pos rfl]
  dsimp only
  rw [present]
  dsimp only
  rw [QueryId.ofJson?_eq_some_iff.2 denotes]
  dsimp only
  cases store.fetch queryId <;> rfl

theorem resolve_eq (request : PersistedRequest) :
    resolve ⟨store, true⟩ request = (store.fetch request.subject).map fun query =>
      ⟨query, request.variableValues, request.operationName⟩ := by
  rw [resolve, if_pos rfl]
  cases store.fetch request.subject <;> rfl

end Resolver

/-- A store has a query for an identifier or fails with it. -/
theorem Store.fetch_cases (store : Store) (id : QueryId) :
    store.fetch id = .error (.unknownId id) ∨ ∃ query, store.fetch id = .ok query := by
  rw [fetch]
  split
  · exact .inr ⟨_, rfl⟩
  · exact .inl rfl

/-- A body without an identifier stays as it is, one whose identifier is neither an integer of 64
bits nor a text fails, and any other one fails with its identifier or has its query set and nothing
else, which is done once and for all. A body that makes a request is answered like the request. -/
theorem Resolver.resolveBody_agrees (store : Store) :
    (∀ body : Value, body.get? "id" = none → resolveBody ⟨store, true⟩ body = .ok body) ∧
    (∀ body id : Value, body.get? "id" = some id → (∀ queryId, ¬QueryId.Denotes id queryId) →
      resolveBody ⟨store, true⟩ body = .error (.json .mismatched)) ∧
    (∀ (members : Members) (id : Value) (queryId : QueryId),
      Members.get? members "id" = some id → QueryId.Denotes id queryId →
      (store.fetch queryId = .error (.unknownId queryId) ∧
        resolveBody ⟨store, true⟩ (.object members) = .error (.unknownId queryId)) ∨
      ∃ query after, store.fetch queryId = .ok query ∧
        resolveBody ⟨store, true⟩ (.object members) = .ok (.object after) ∧
        Members.Sets "query" (.string query) members after ∧
        resolveBody ⟨store, true⟩ (.object after) = .ok (.object after)) ∧
    (∀ (members : Members) (request : PersistedRequest),
      PersistedRequest.ofMembers? members = some request →
      (resolve ⟨store, true⟩ request = .error (.unknownId request.subject) ∧
        resolveBody ⟨store, true⟩ (.object members) = .error (.unknownId request.subject)) ∨
      ∃ query after,
        resolve ⟨store, true⟩ request =
          .ok ⟨query, request.variableValues, request.operationName⟩ ∧
        resolveBody ⟨store, true⟩ (.object members) = .ok (.object after) ∧
        Members.get? after "query" = some (.string query)) ∧
    ∀ (s : String) (members : Members), Value.read s = .ok (.object members) →
      (members.map Prod.fst).Nodup ∧
      ∀ request, PersistedRequest.read s = .ok request →
        PersistedRequest.ofMembers? members = some request := by
  refine ⟨fun _ => resolveBody_of_none store, fun _ _ => resolveBody_of_not_denotes store, ?_, ?_, ?_⟩
  · intro members id queryId present denotes
    have resolved := resolveBody_of_denotes store present denotes
    rcases store.fetch_cases queryId with missing | ⟨query, found⟩
    · rw [missing] at resolved
      exact .inl ⟨missing, resolved⟩
    · -- The identifier is still there, and the query that is set once more is the same.
      have kept : Members.get? (Members.set "query" (.string query) members) "id" = some id := by
        rw [Members.get?_set_other (by decide), present]
      have again := resolveBody_of_denotes store kept denotes
      rw [found] at resolved again
      rw [Except.map, Members.set_set] at again
      exact .inr ⟨query, _, found, resolved, Members.sets_set _ _ _, again⟩
  · intro members request makes
    rcases PersistedRequest.ofMembers?_eq_some makes with ⟨id, present, stands⟩
    have denotes := QueryId.ofJson?_eq_some_iff.1 stands
    have resolved := resolveBody_of_denotes store present denotes
    rw [resolve_eq store request]
    rcases store.fetch_cases request.subject with missing | ⟨query, found⟩
    · rw [missing] at resolved ⊢
      exact .inl ⟨rfl, resolved⟩
    · rw [found] at resolved ⊢
      exact .inr ⟨query, _, rfl, resolved, Members.get?_set_self⟩
  · exact fun s members read => ⟨Value.nodup_of_read read,
      fun request => PersistedRequest.ofMembers?_of_read read⟩

set_option maxRecDepth 2000 in
/-- A body with a query of its own next to the identifier, and with a member that no request has. -/
theorem Resolver.resolveBody_agrees_of_own_query :
    let store : Store := ⟨[("1", "\x7b a \x7d")], by decide⟩
    let s := "\x7b\"query\":\"b\",\"id\":1,\"x\":null\x7d"
    ∃ members after request, Value.read s = .ok (.object members) ∧
      PersistedRequest.read s = .ok request ∧
      resolve ⟨store, true⟩ request = .ok ⟨"\x7b a \x7d", none, none⟩ ∧
      resolveBody ⟨store, true⟩ (.object members) = .ok (.object after) ∧
      Members.get? after "query" = some (.string "\x7b a \x7d") := by
  intro store s
  have body : Value.read s =
      .ok (.object [("query", .string "b"), ("id", .int 1), ("x", .null)]) := by cbv
  have read : PersistedRequest.read s = .ok ⟨.number 1, none, none⟩ := by cbv
  obtain ⟨_, _, _, agree, ofText⟩ := resolveBody_agrees store
  have stored : resolve ⟨store, true⟩ ⟨.number 1, none, none⟩ =
      .ok ⟨"\x7b a \x7d", none, none⟩ := by cbv
  rcases agree _ _ ((ofText s _ body).2 _ read) with
    ⟨missing, _⟩ | ⟨query, after, resolved, answered, asked⟩
  · cases stored.symm.trans missing
  · cases stored.symm.trans resolved
    exact ⟨_, after, _, body, read, stored, answered, asked⟩

end PersistedDocuments
