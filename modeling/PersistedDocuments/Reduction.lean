import PersistedDocuments.Canonical
import PersistedDocuments.Reachable

/-!
# Reduction

A document with several operations is cut down to one of them and the fragments that it needs, each
defined once, in canonical order.
-/

namespace PersistedDocuments.GraphQL

/-- The first fragment of each name. -/
def Fragment.firsts : List Fragment → List Fragment
  | [] => []
  | fragment :: rest =>
    fragment :: (Fragment.firsts rest).filter fun other => other.name ≠ fragment.name

/-- The operation followed by the fragments it reaches in the document. -/
def Document.reduce (document : Document) (operation : Operation) : Except Failure Document := do
  let names ← document.reachable operation.selectionSet
  let needed := document.fragments.filter fun fragment => names.contains fragment.name
  let kept := (Fragment.firsts needed).map Definition.fragment
  return ⟨.operation operation :: kept.mergeSort Definition.precedes⟩

end PersistedDocuments.GraphQL
