import PersistedDocuments.Request
import PersistedDocuments.Store

/-!
# Resolvers

A resolver turns requests by identifier back into full requests, either requests as such or any JSON
body with an identifier.
-/

namespace PersistedDocuments

structure Resolver where
  store : Store
  enabled : Bool

namespace Resolver

/-- The full request for a request by identifier. -/
def resolve (resolver : Resolver) (request : PersistedRequest) : Except Failure FullRequest := do
  if resolver.enabled then return { request with subject := ← resolver.store.fetch request.subject }
  else throw .disabled

/-- The body with the text of the query that its member `id` names as its member `query`. A body
without an identifier is left as it is, and so is every body if the resolver is switched off. -/
def resolveBody (resolver : Resolver) (body : Json.Value) : Except Failure Json.Value :=
  if resolver.enabled then
    match body with
    | .object members =>
      match Json.Members.get? members "id" with
      | none => .ok body
      | some id =>
        match QueryId.ofJson? id with
        | none => .error (.json .mismatched)
        | some id => do
          let query ← resolver.store.fetch id
          return .object (Json.Members.set "query" (.string query) members)
    | body => .ok body
  else .ok body

end Resolver

end PersistedDocuments
