import PersistedDocuments.GraphQL.Syntax

/-!
# Spreads

The names of the fragments that selections spread, at any depth of fields and inline fragments.
-/

namespace PersistedDocuments.GraphQL

mutual
def Selection.spreads : Selection → List String
  | .field _ _ items => Selections.spreads items
  | .spread _ name _ => [name]
  | .inline _ _ _ _ items => Selections.spreads items

/-- The names that are spread, in the order of a walk through the selections, repeated ones
repeatedly. -/
def Selections.spreads : Selections → List String
  | [] => []
  | selection :: rest => selection.spreads ++ Selections.spreads rest
end

def SelectionSet.spreads (set : SelectionSet) : List String := Selections.spreads set.items

end PersistedDocuments.GraphQL
