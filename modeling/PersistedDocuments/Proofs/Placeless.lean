import PersistedDocuments.Proofs.GraphQL.TypeNames
import PersistedDocuments.Proofs.KeyAgreement

/-!
# Keys without places

Forgetting the places of a document is a change of its definitions, one by one, that keeps the names
of fragments and the spreads of every definition. So it can change places with a reduction, and no
key shows it: documents that are equal up to places have the same keys or fail for the same reason.
-/

namespace PersistedDocuments

open GraphQL

namespace GraphQL

mutual
theorem Selection.spreads_erase : ∀ selection : Selection, selection.erase.spreads =
    selection.spreads
  | .field _ _ items => by
      rw [Selection.erase, Selection.spreads, Selections.spreads_erase items, Selection.spreads]
  | .spread _ _ _ => rfl
  | .inline _ _ _ _ items => by
      rw [Selection.erase, Selection.spreads, Selections.spreads_erase items, Selection.spreads]

theorem Selections.spreads_erase : ∀ items : Selections,
    Selections.spreads (Selections.erase items) = Selections.spreads items
  | [] => rfl
  | selection :: rest => by
      rw [Selections.erase, Selections.spreads, Selection.spreads_erase selection,
        Selections.spreads_erase rest, Selections.spreads]
end

end GraphQL

/-- Forgetting the places of operations and fragments. -/
def Rewriting.erase : Rewriting where
  operation := Operation.erase
  fragment := Fragment.erase
  spreads_operation := fun op => Selections.spreads_erase op.selectionSet.items
  name_fragment := fun _ => rfl
  spreads_fragment := fun fr => Selections.spreads_erase fr.selectionSet.items

theorem Rewriting.run_erase (document : Document) :
    Rewriting.erase.run document = document.erase := by
  have same : Rewriting.erase.definition = Definition.erase := by
    funext definition
    cases definition <;> rfl
  rw [Rewriting.run, same, Document.erase]

namespace GraphQL.Document

variable (document : Document)

theorem operations_erase : document.erase.operations = document.operations.map Operation.erase := by
  rw [← Rewriting.run_erase, Rewriting.operations_run]
  rfl

/-- Places play no part in a reduction. -/
theorem reduce_erase (operation : Operation) :
    document.erase.reduce operation.erase = (document.reduce operation).map Document.erase := by
  have erased := Rewriting.erase.reduce_run document operation
  rw [Rewriting.run_erase, funext Rewriting.run_erase] at erased
  exact erased

theorem print_erase : document.erase.print = document.print := by
  rw [print, chars_erase, print]

/-- The canonical key shows no places. -/
theorem canonicalKey_erase : document.erase.canonicalKey = document.canonicalKey := by
  rw [canonicalKey, sorted_erase, print_erase, canonicalKey]

end GraphQL.Document

namespace Pipeline

theorem documentKey_erase (n : Nat) (document : Document) :
    documentKey (List.replicate n .addTypename) document.erase =
      documentKey (List.replicate n .addTypename) document := by
  induction n generalizing document with
  | zero => exact congrArg Except.ok document.canonicalKey_erase
  | succ n ih =>
      have step := ih document.addTypename
      rw [Document.erase_addTypename] at step
      exact step

/-- The key of a request, or the reason why it has none, is the same wherever its nodes stand. -/
theorem requestKey_erase (n : Nat) (document : Document) :
    requestKey (List.replicate n .addTypename) document.erase =
      requestKey (List.replicate n .addTypename) document := by
  have erased := document.operations_erase
  cases held : document.operations with
  | nil =>
      rw [held] at erased
      rw [requestKey, requestKey, erased, held]
      rfl
  | cons operation others =>
      rw [held] at erased
      cases others with
      | nil =>
          rw [requestKey_of_operations held, requestKey_of_operations erased,
            Document.reduce_erase]
          cases document.reduce operation with
          | error failure => rfl
          | ok reduced => exact documentKey_erase n reduced
      | cons second rest =>
          rw [requestKey, requestKey, erased, held]
          simp

theorem requestKey_of_erase_eq (n : Nat) {document other : Document}
    (same : document.erase = other.erase) :
    requestKey (List.replicate n .addTypename) document =
      requestKey (List.replicate n .addTypename) other := by
  rw [← requestKey_erase, same, requestKey_erase]

end Pipeline

end PersistedDocuments
