import PersistedDocuments.Proofs.KeyAgreement

/-!
# What a request's key depends on

A request must hold exactly one operation, and how many it holds is looked at before anything else.
Its key, or the reason why it has none, depends on this operation and on the first definitions of
the fragments that it reaches. So neither the order of definitions matters, nor a fragment that is
not reached, even one that spreads undefined names, nor one whose name has been defined before.
-/

namespace PersistedDocuments

open GraphQL

namespace GraphQL.Document

variable {before after : List Definition} {fragment : Fragment} {operation : Operation}

theorem fragments_append (before after : List Definition) :
    (⟨before ++ after⟩ : Document).fragments =
      (⟨before⟩ : Document).fragments ++ (⟨after⟩ : Document).fragments :=
  List.filterMap_append

theorem fragments_insert (before after : List Definition) (fragment : Fragment) :
    (⟨before ++ .fragment fragment :: after⟩ : Document).fragments =
      (⟨before⟩ : Document).fragments ++ fragment :: (⟨after⟩ : Document).fragments :=
  fragments_append before (.fragment fragment :: after)

theorem operations_insert (before after : List Definition) (fragment : Fragment) :
    (⟨before ++ .fragment fragment :: after⟩ : Document).operations =
      (⟨before ++ after⟩ : Document).operations := by
  rw [operations, operations, List.filterMap_append, List.filterMap_append]
  rfl

/-- A fragment that is put in changes the first definition of its own name only, and not even that
if one stands before it. -/
theorem fragment?_insert {name : String}
    (hidden : name ≠ fragment.name ∨ name ∈ (⟨before⟩ : Document).fragments.map Fragment.name) :
    (⟨before ++ .fragment fragment :: after⟩ : Document).fragment? name =
      (⟨before ++ after⟩ : Document).fragment? name := by
  rw [fragment?, fragments_insert, fragment?, fragments_append, List.find?_append,
    List.find?_append]
  cases found : (⟨before⟩ : Document).fragments.find? fun fragment => fragment.name = name with
  | some first => rfl
  | none =>
      have different : ¬fragment.name = name := by
        rintro rfl
        rcases hidden with different | defined
        · exact different rfl
        · rcases List.mem_map.1 defined with ⟨first, present, same⟩
          have absent := List.find?_eq_none.1 found first present
          simp [same] at absent
      rw [List.find?_cons_of_neg (by simpa using different)]

end GraphQL.Document

namespace Pipeline

variable {pipeline : Pipeline} {document other : Document} {operation : Operation}

theorem requestKey_of_several (several : 2 ≤ document.operations.length) :
    pipeline.requestKey document = .error (.multipleOperations document.operations.length) := by
  rw [requestKey]
  cases held : document.operations with
  | nil => rw [held] at several; cases several
  | cons first rest =>
      cases rest with
      | nil =>
          rw [held] at several
          exact absurd several (Nat.not_succ_le_self 1)
      | cons second rest => rfl

/-- Requests with one operation that agree on the first definitions of what it reaches have one
key. -/
theorem requestKey_congr (only : document.operations = [operation])
    (otherOnly : other.operations = [operation])
    (agree : ∀ name, document.Reaches operation.selectionSet.spreads name →
      document.fragment? name = other.fragment? name) :
    pipeline.requestKey document = pipeline.requestKey other := by
  rw [requestKey_of_operations only, requestKey_of_operations otherOnly,
    Document.reduce_congr agree]

/-- The key of a request, or its failure, is that of its operation and the first definitions of the
fragments that this reaches; other definitions and their order have no influence. -/
theorem requestKey_eq_of_reached (pipeline : Pipeline) :
    (∀ document : Document, document.operations = [] →
      pipeline.requestKey document = .error .missingOperation) ∧
    (∀ document : Document, 2 ≤ document.operations.length →
      pipeline.requestKey document = .error (.multipleOperations document.operations.length)) ∧
    (∀ (document other : Document) (operation : Operation),
      document.operations = [operation] → other.operations = [operation] →
      (∀ name, document.Reaches operation.selectionSet.spreads name →
        document.fragment? name = other.fragment? name) →
      pipeline.requestKey document = pipeline.requestKey other) ∧
    (∀ (document other : Document) (operation : Operation),
      document.operations = [operation] → other.operations = [operation] →
      document.SharesFragments other →
      pipeline.requestKey document = pipeline.requestKey other) ∧
    ∀ (before after : List Definition) (operation : Operation) (fragment : Fragment),
      (⟨before ++ after⟩ : Document).operations = [operation] →
      (¬(⟨before ++ after⟩ : Document).Reaches operation.selectionSet.spreads fragment.name ∨
        fragment.name ∈ (⟨before⟩ : Document).fragments.map Fragment.name) →
      pipeline.requestKey ⟨before ++ .fragment fragment :: after⟩ =
        pipeline.requestKey ⟨before ++ after⟩ := by
  refine ⟨?_, fun document => requestKey_of_several, ?_, ?_, ?_⟩
  · intro document none
    rw [requestKey, none]
  · intro document other operation only otherOnly agree
    exact requestKey_congr only otherOnly agree
  · intro document other operation only otherOnly shares
    exact requestKey_congr only otherOnly fun name _ => shares.fragment? name
  · intro before after operation fragment only unneeded
    have same : (⟨before ++ .fragment fragment :: after⟩ : Document).operations = [operation] :=
      (Document.operations_insert before after fragment).trans only
    refine (requestKey_congr only same fun name reached => ?_).symm
    refine (Document.fragment?_insert ?_).symm
    rcases unneeded with notReached | defined
    · exact .inl fun equal => notReached (equal ▸ reached)
    · by_cases equal : name = fragment.name
      · exact .inr (equal ▸ defined)
      · exact .inl equal

/-- Two fragments that spread one another, in both orders, once among a later definition of the same
name and a fragment that spreads an undefined name. -/
theorem requestKey_eq_of_reached_of_cycle :
    let fragment (name spread : String) : Fragment :=
      ⟨.nowhere, name, "T", [], .nowhere, [.spread .nowhere spread []]⟩
    let query : Operation := ⟨none, .nowhere, [.spread .nowhere "a" []]⟩
    let document : Document :=
      ⟨[.operation query, .fragment (fragment "a" "b"), .fragment (fragment "b" "a")]⟩
    let other : Document :=
      ⟨[.fragment (fragment "c" "d"), .fragment (fragment "b" "a"), .operation query,
        .fragment (fragment "a" "b"), .fragment (fragment "a" "c")]⟩
    Pipeline.requestKey [.addTypename] document = Pipeline.requestKey [.addTypename] other := by
  intro fragment query document other
  have first : document.fragment? "a" = some (fragment "a" "b") := rfl
  have second : document.fragment? "b" = some (fragment "b" "a") := rfl
  have walked : document.visit [] ["a"] = .ok ["b", "a"] := by
    rw [Document.visit_fresh first (by decide)]
    change document.visit ["a"] ["b"] = _
    rw [Document.visit_fresh second (by decide)]
    change document.visit ["b", "a"] ["a"] = _
    rw [Document.visit_known first (by decide), Document.visit_nil]
  refine (requestKey_eq_of_reached [.addTypename]).2.2.1 document other query rfl rfl ?_
  intro name reached
  have present := ((Document.mem_iff_of_visit walked).1 name).2 reached
  simp only [List.mem_cons, List.not_mem_nil, or_false] at present
  rcases present with rfl | rfl <;> rfl

end Pipeline

end PersistedDocuments
