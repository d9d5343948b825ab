import PersistedDocuments.Failure
import PersistedDocuments.GraphQL.Spreads

/-!
# Reachable fragments

The fragments that a selection set needs: those it spreads, those that their definitions spread, and
so on. Of definitions with one name the first counts. The walk goes depth first and stops at the
first name without a definition; it enters no fragment twice, so that fragments may spread one
another in circles.
-/

namespace PersistedDocuments.GraphQL

/-- The first definition of a fragment. -/
def Document.fragment? (document : Document) (name : String) : Option Fragment :=
  document.fragments.find? fun fragment => fragment.name = name

/-- Names of the document's fragments that are not among the given ones. -/
def Document.unvisited (document : Document) (visited : List String) : List String :=
  (document.fragments.map Fragment.name).filter fun name => !visited.contains name

theorem Document.fragment?_eq_some {document : Document} {name : String} {fragment : Fragment}
    (h : document.fragment? name = some fragment) :
    fragment ∈ document.fragments ∧ fragment.name = name := by
  have := List.find?_some h
  exact ⟨List.mem_of_find?_eq_some h, by simpa using this⟩

/-- Visiting a defined name for the first time leaves fewer names to visit. -/
theorem Document.length_unvisited_lt {document : Document} {visited : List String} {name : String}
    {fragment : Fragment} (defined : document.fragment? name = some fragment)
    (fresh : name ∉ visited) :
    (document.unvisited (name :: visited)).length < (document.unvisited visited).length := by
  have split : document.unvisited (name :: visited) =
      (document.unvisited visited).filter fun other => other ≠ name := by
    simp [unvisited, List.filter_filter]
  have ⟨mem, same⟩ := document.fragment?_eq_some defined
  rw [split, List.length_filter_lt_length_iff_exists]
  refine ⟨name, ?_, by simp⟩
  simp only [unvisited, List.mem_filter, List.mem_map]
  exact ⟨⟨fragment, mem, same⟩, by simpa using fresh⟩

/-- Adds to the visited names those that the names still to visit lead to. -/
def Document.visit (document : Document) (visited : List String) :
    List String → Except Failure (List String)
  | [] => .ok visited
  | name :: rest =>
    match _defined : document.fragment? name with
    | none => .error (.missingFragment name)
    | some fragment =>
      if _fresh : name ∈ visited then document.visit visited rest
      else document.visit (name :: visited) (fragment.selectionSet.spreads ++ rest)
termination_by todo => ((document.unvisited visited).length, todo.length)
decreasing_by
  · exact Prod.Lex.right _ (Nat.lt_succ_self _)
  · exact Prod.Lex.left _ _ (document.length_unvisited_lt _defined _fresh)

/-- The names of the fragments that a selection set needs, each once. -/
def Document.reachable (document : Document) (set : SelectionSet) : Except Failure (List String) :=
  document.visit [] set.spreads

end PersistedDocuments.GraphQL
