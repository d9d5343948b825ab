import PersistedDocuments.GraphQL.Printer

/-!
# Canonical order

Operations first, in the order in which they stand, then fragments by their names, those of one name
in the order in which they stand. The printed form of a document in this order is its canonical key.
-/

namespace PersistedDocuments.GraphQL

/-- Operations come before fragments and are equal to one another; fragments compare by name. -/
def Definition.compare : Definition → Definition → Ordering
  | .operation _, .operation _ => .eq
  | .operation _, .fragment _ => .lt
  | .fragment _, .operation _ => .gt
  | .fragment a, .fragment b => Ord.compare a.name b.name

/-- Whether the first definition may stand before the second. -/
def Definition.precedes (a b : Definition) : Bool := (a.compare b).isLE

/-- The document in canonical order. -/
def Document.sorted (document : Document) : Document :=
  ⟨document.definitions.mergeSort Definition.precedes⟩

/-- The printed form of the document in canonical order. -/
def Document.canonicalKey (document : Document) : String := document.sorted.print

end PersistedDocuments.GraphQL
