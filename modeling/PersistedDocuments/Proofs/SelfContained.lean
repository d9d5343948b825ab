import Mathlib
import PersistedDocuments.Proofs.Needs
import PersistedDocuments.Proofs.Outcome
import PersistedDocuments.Proofs.Reduction
import PersistedDocuments.Proofs.Text.ByteOrder

/-!
# Reduced documents are self-contained

A reduction keeps the first definition of every fragment that its operation needs and nothing else,
in the order of their names. The definitions that are kept are those that the walk has gone through,
so the walk goes the same way in the reduced document, and reducing again changes nothing.
-/

namespace PersistedDocuments.GraphQL

/-- Fragments with different names in canonical order are in the order of the bytes of their names.
-/
theorem Definition.bytes_lt_of_precedes {left right : Fragment} (different : left.name ≠ right.name)
    (order : (Definition.fragment left).precedes (.fragment right) = true) :
    Text.bytes left.name < Text.bytes right.name := by
  rw [precedes_fragment] at order
  apply Text.bytes_lt_bytes_iff.2
  cases compared : Ord.compare left.name right.name with
  | lt => exact compareOfLessAndEq_eq_lt.1 compared
  | eq => exact absurd (Std.LawfulEqOrd.eq_of_compare compared) different
  | gt => rw [compared] at order; cases order

namespace Document

variable {document reduced : Document} {operation : Operation} {names : List String}

/-- The definitions that are kept for the names, in the order in which they are written. -/
def ordered (document : Document) (names : List String) : List Fragment :=
  (document.kept names).mergeSort fun left right =>
    (Definition.fragment left).precedes (.fragment right)

theorem mem_ordered {fragment : Fragment} :
    fragment ∈ document.ordered names ↔
      fragment.name ∈ names ∧ document.fragment? fragment.name = some fragment := by
  rw [ordered, List.mem_mergeSort, mem_kept]

theorem pairwise_ordered (document : Document) (names : List String) :
    (document.ordered names).Pairwise fun left right =>
      Text.bytes left.name < Text.bytes right.name := by
  have sorted : (document.ordered names).Pairwise fun left right =>
      (Definition.fragment left).precedes (.fragment right) = true := by
    apply List.pairwise_mergeSort
    · intro first second third
      exact Definition.precedes_trans (.fragment first) (.fragment second) (.fragment third)
    · intro left right
      exact Definition.precedes_total (.fragment left) (.fragment right)
  have distinct : (document.ordered names).Pairwise fun left right => left.name ≠ right.name := by
    have keptDistinct : ((document.kept names).map Fragment.name).Nodup :=
      Fragment.nodup_names_firsts _
    have sameFragments : (document.ordered names).Perm (document.kept names) :=
      List.mergeSort_perm _ _
    exact List.pairwise_map.1 ((sameFragments.map Fragment.name).nodup_iff.2 keptDistinct)
  exact (sorted.and distinct).imp fun both => Definition.bytes_lt_of_precedes both.2 both.1

/-- A reduction succeeds with the names that the walk finds, and consists of the operation and the
definitions kept for them. -/
theorem reduce_eq_ok :
    document.reduce operation = .ok reduced ↔
      ∃ names, document.reachable operation.selectionSet = .ok names ∧
        reduced = ⟨.operation operation :: (document.ordered names).map Definition.fragment⟩ := by
  have sameOrder (names : List String) :
      ((document.kept names).map Definition.fragment).mergeSort Definition.precedes =
        (document.ordered names).map Definition.fragment := by
    rw [ordered, List.map_mergeSort (f := Definition.fragment) fun _ _ _ _ => rfl]
  rw [reduce_eq, map_eq_ok]
  simp only [sameOrder, eq_comm]

/-- The walk goes the same way in the reduced document. -/
theorem reachable_of_reduce (succeeded : document.reduce operation = .ok reduced) :
    reduced.reachable operation.selectionSet = document.reachable operation.selectionSet := by
  symm
  apply visit_congr
  intro name reached
  rw [fragment?_of_reduce succeeded reached]

/-- A reduced document consists of the operation and the first definitions of the fragments that it
needs, in the strict order of the bytes of their names. All that is spread in it is defined in it,
all that is defined in it is needed in it, and reducing it again changes nothing. -/
theorem reduce_selfContained (succeeded : document.reduce operation = .ok reduced) :
    ∃ fragments : List Fragment,
      reduced.definitions = .operation operation :: fragments.map Definition.fragment ∧
      fragments.Pairwise (fun left right => Text.bytes left.name < Text.bytes right.name) ∧
      (∀ name, name ∈ fragments.map Fragment.name ↔
        document.Needs operation.selectionSet name) ∧
      (∀ fragment ∈ fragments, document.fragment? fragment.name = some fragment) ∧
      (∃ names, document.reachable operation.selectionSet = .ok names ∧
        reduced.reachable operation.selectionSet = .ok names ∧
        ∀ name, name ∈ names ↔ name ∈ fragments.map Fragment.name) ∧
      (∀ definition ∈ reduced.definitions, ∀ name, definition.selectionSet.Spreads name →
        name ∈ fragments.map Fragment.name) ∧
      (∀ fragment ∈ fragments, reduced.Needs operation.selectionSet fragment.name) ∧
      reduced.reduce operation = .ok reduced := by
  rcases reduce_eq_ok.1 succeeded with ⟨names, walked, content⟩
  have walkedAgain := (reachable_of_reduce succeeded).trans walked
  have ⟨needed, defined⟩ := needs_of_reachable walked
  have keptNames : ∀ name, name ∈ (document.ordered names).map Fragment.name ↔
      document.Needs operation.selectionSet name := by
    intro name
    rw [← needed, List.mem_map]
    constructor
    · rintro ⟨fragment, kept, rfl⟩
      exact (mem_ordered.1 kept).1
    · intro found
      cases first : document.fragment? name with
      | none => exact absurd (defined name ((needed name).1 found)) (fragment?_eq_none_iff.1 first)
      | some fragment =>
          have named := (fragment?_eq_some first).2
          exact ⟨fragment, mem_ordered.2 ⟨named.symm ▸ found, named.symm ▸ first⟩, named⟩
  refine ⟨document.ordered names, by rw [content], pairwise_ordered document names, keptNames,
    fun fragment kept => (mem_ordered.1 kept).2, ⟨names, walked, walkedAgain, ?_⟩, ?_, ?_,
    reduce_of_reduce succeeded⟩
  · intro name
    rw [needed, keptNames]
  · intro definition present name inside
    rw [keptNames]
    rw [content] at present
    rcases List.mem_cons.1 present with rfl | among
    · exact .spread inside
    · rcases List.mem_map.1 among with ⟨fragment, kept, rfl⟩
      have ⟨found, first⟩ := mem_ordered.1 kept
      exact .through ((needed _).1 found) first inside
  · intro fragment kept
    exact ((needs_of_reachable walkedAgain).1 _).1 (mem_ordered.1 kept).1

/-- Two fragments that spread one another, in the wrong order and one of them defined twice, among
another operation and a fragment that nothing needs. -/
theorem reduce_selfContained_of_cycle :
    let fragment (name : String) (items : Selections) : Fragment :=
      ⟨.nowhere, name, "T", [], .nowhere, items⟩
    let spread (name : String) : Selection := .spread .nowhere name []
    let query : Operation := ⟨none, .nowhere, [spread "b", spread "b"]⟩
    let other : Operation := ⟨none, .nowhere, [spread "missing"]⟩
    let a := fragment "a" [spread "b"]
    let b := fragment "b" [spread "a"]
    let document : Document := ⟨[.fragment b, .operation other, .fragment (fragment "c" []),
      .operation query, .fragment a, .fragment (fragment "a" [spread "c"])]⟩
    let reduced : Document := ⟨[.operation query, .fragment a, .fragment b]⟩
    document.reduce query = .ok reduced ∧ reduced.reduce query = .ok reduced ∧
      document.Needs query.selectionSet "a" ∧ ¬document.Needs query.selectionSet "c" := by
  intro fragment spread query other a b document reduced
  have succeeded : document.reduce query = .ok reduced := by cbv
  rcases reduce_selfContained succeeded with ⟨fragments, content, _, needed, _, _, _, _, again⟩
  have kept : [.fragment a, .fragment b] = fragments.map Definition.fragment :=
    (List.cons.inj content).2
  have names : fragments.map Fragment.name = ["a", "b"] := by
    have named := congrArg (List.filterMap Definition.name?) kept
    rw [List.filterMap_map] at named
    exact (named.trans (congrFun List.filterMap_eq_map fragments)).symm
  refine ⟨succeeded, again, (needed "a").1 (names ▸ by decide), fun needs => ?_⟩
  have present := (needed "c").2 needs
  rw [names] at present
  exact absurd present (by decide)

end Document

end PersistedDocuments.GraphQL
