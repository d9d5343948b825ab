import PersistedDocuments.Proofs.CanonicalOrder
import PersistedDocuments.Proofs.Sorting
import PersistedDocuments.Proofs.Text.ByteOrder

/-!
# Canonical order is stable

In canonical order all operations come first, as they stood, and behind them all fragments by the
bytes of their names, those of one name as they stood. The comparison of definitions is only a
preorder, so it is stability that makes this order unique: documents have the same canonical form
exactly if their operations, and their fragments of every name, stand in the same order.
-/

namespace PersistedDocuments.GraphQL

namespace Definition

instance : Std.OrientedCmp compare where
  eq_swap {left right} := by
    cases left with
    | operation _ => cases right <;> rfl
    | fragment _ =>
        cases right with
        | operation _ => rfl
        | fragment _ => exact Std.OrientedOrd.eq_swap

instance : Std.TransCmp compare where
  isLE_trans {first second third} := precedes_trans first second third

/-- Every order between two definitions and a third is one between the outer two. -/
theorem compare_trans {first second third : Definition} {order : Ordering}
    (left : first.compare second = order) (right : second.compare third = order) :
    first.compare third = order := by
  cases order with
  | lt => exact Std.TransCmp.lt_trans left right
  | eq => exact Std.TransCmp.eq_trans left right
  | gt => exact Std.TransCmp.gt_trans left right

theorem precedes_fragment_iff {left right : Fragment} :
    (Definition.fragment left).precedes (.fragment right) = true ↔ left.name ≤ right.name := by
  rw [precedes_fragment, ← String.not_lt]
  cases compared : Ord.compare left.name right.name with
  | lt => simpa using String.lt_asymm (compareOfLessAndEq_eq_lt.1 compared)
  | eq =>
      rw [Std.LawfulEqOrd.eq_of_compare compared]
      simp
  | gt =>
      rw [Std.OrientedOrd.eq_swap, Ordering.swap_eq_gt] at compared
      simpa using compareOfLessAndEq_eq_lt.1 compared

end Definition

namespace Document

/-- The documents have the same operations, and the same fragments of every name, in one order. -/
structure Agrees (document other : Document) : Prop where
  operations : document.operations = other.operations
  fragments : ∀ name, document.fragments.filter (·.name = name) =
    other.fragments.filter (·.name = name)

variable {document other : Document}

theorem pairwise_sorted (document : Document) :
    document.sorted.definitions.Pairwise fun a b => a.precedes b = true :=
  List.pairwise_mergeSort Definition.precedes_trans Definition.precedes_total _

/-- Sorting leaves definitions that all tie in their order. -/
theorem filter_sorted {keep : Definition → Bool}
    (ties : ∀ a b, keep a = true → keep b = true → a.precedes b = true) (document : Document) :
    document.sorted.definitions.filter keep = document.definitions.filter keep :=
  filter_mergeSort_of_ties Definition.precedes_trans Definition.precedes_total ties _

theorem operations_sorted (document : Document) :
    document.sorted.operations = document.operations := by
  have kept (definitions : List Definition) : definitions.filterMap Definition.operation? =
      (definitions.filter Definition.isOperation).filterMap Definition.operation? := by
    rw [List.filterMap_filter]
    congr 1
    funext definition
    cases definition <;> rfl
  have ties (a b : Definition) (operation : a.isOperation = true) (_ : b.isOperation = true) :
      a.precedes b = true := by
    cases a with
    | operation _ => exact Definition.precedes_operation ..
    | fragment _ => cases operation
  rw [operations, kept, filter_sorted ties, ← kept, operations]

theorem filter_fragments_sorted (document : Document) (name : String) :
    document.sorted.fragments.filter (·.name = name) =
      document.fragments.filter (·.name = name) := by
  let named (definition : Definition) : Bool := definition.fragment?.any (·.name = name)
  have kept (definitions : List Definition) :
      (definitions.filterMap Definition.fragment?).filter (·.name = name) =
        (definitions.filter named).filterMap Definition.fragment? := by
    rw [List.filter_filterMap, List.filterMap_filter]
    congr 1
    funext definition
    cases definition with
    | operation _ => rfl
    | fragment fragment =>
        simp [named, Definition.fragment?, Option.filter]
  have ties (a b : Definition) (left : named a = true) (right : named b = true) :
      a.precedes b = true := by
    cases a with
    | operation _ => cases left
    | fragment first =>
        cases b with
        | operation _ => cases right
        | fragment second =>
            have same : first.name = second.name :=
              (of_decide_eq_true left).trans (of_decide_eq_true right).symm
            exact Definition.precedes_fragment_iff.2 (same ▸ String.le_refl _)
  rw [fragments, kept, filter_sorted ties, ← kept, fragments]

theorem pairwise_fragments_sorted (document : Document) :
    document.sorted.fragments.Pairwise fun a b => a.name ≤ b.name := by
  rw [fragments, List.pairwise_filterMap]
  refine (pairwise_sorted document).imp ?_
  intro first second order left leftSame right rightSame
  cases first with
  | operation _ => cases leftSame
  | fragment _ =>
      cases second with
      | operation _ => cases rightSame
      | fragment _ =>
          cases leftSame
          cases rightSame
          exact Definition.precedes_fragment_iff.1 order

/-- Definitions in canonical order are the operations and behind them the fragments. -/
theorem eq_append_of_pairwise {definitions : List Definition}
    (ordered : definitions.Pairwise fun a b => a.precedes b = true) :
    definitions = (definitions.filterMap Definition.operation?).map .operation ++
      (definitions.filterMap Definition.fragment?).map .fragment := by
  induction definitions with
  | nil => rfl
  | cons first rest ih =>
      have ⟨before, restOrdered⟩ := List.pairwise_cons.1 ordered
      cases first with
      | operation operation => exact congrArg (.operation operation :: ·) (ih restOrdered)
      | fragment fragment =>
          have none : rest.filterMap Definition.operation? = [] := by
            rw [List.filterMap_eq_nil_iff]
            intro definition present
            cases definition with
            | operation _ => cases before _ present
            | fragment _ => rfl
          have tail := ih restOrdered
          rw [none] at tail
          rw [List.filterMap_cons, List.filterMap_cons]
          dsimp only [Definition.operation?, Definition.fragment?]
          rw [none]
          exact congrArg (.fragment fragment :: ·) tail

theorem definitions_sorted (document : Document) :
    document.sorted.definitions = document.operations.map .operation ++
      document.sorted.fragments.map .fragment := by
  have parts := eq_append_of_pairwise (pairwise_sorted document)
  rw [← operations, operations_sorted] at parts
  exact parts

/-- The canonical form tells of a document the order of its operations and the order of its
fragments of every name, and nothing else. -/
theorem sorted_eq_sorted_iff : document.sorted = other.sorted ↔ document.Agrees other := by
  constructor
  · intro same
    constructor
    · rw [← operations_sorted, same, operations_sorted]
    · intro name
      rw [← filter_fragments_sorted, same, filter_fragments_sorted]
  · intro agrees
    have sameFragments : document.sorted.fragments = other.sorted.fragments := by
      apply eq_of_filter_key (pairwise_fragments_sorted _) (pairwise_fragments_sorted _)
      intro name
      rw [filter_fragments_sorted, agrees.fragments, filter_fragments_sorted]
    have same : document.sorted.definitions = other.sorted.definitions := by
      rw [definitions_sorted, definitions_sorted, agrees.operations, sameFragments]
    rw [sorted, sorted, Document.mk.injEq]
    exact same

/-- Canonical order is a permutation: all operations as they stand, and behind them all fragments by
the bytes of their names, those of one name as they stand. It is there to stay, and the comparison
that it comes from is a total preorder. Documents whose operations, and whose fragments of every
name, stand in the same order have the same canonical form and no others have, so they have the same
key. -/
theorem sorted_isStable (document : Document) :
    document.sorted.definitions.Perm document.definitions ∧
    document.sorted.definitions =
      document.operations.map .operation ++ document.sorted.fragments.map .fragment ∧
    document.sorted.fragments.Pairwise (fun a b => Text.bytes a.name ≤ Text.bytes b.name) ∧
    (∀ name, document.sorted.fragments.filter (·.name = name) =
      document.fragments.filter (·.name = name)) ∧
    document.sorted.sorted = document.sorted ∧
    (∀ a b : Definition, b.compare a = (a.compare b).swap) ∧
    (∀ a b c : Definition, a.precedes b = true → b.precedes c = true → a.precedes c = true) ∧
    (∀ (a b c : Definition) (order : Ordering),
      a.compare b = order → b.compare c = order → a.compare c = order) ∧
    ∀ other : Document, (other.sorted = document.sorted ↔ other.Agrees document) ∧
      (other.Agrees document → other.canonicalKey = document.canonicalKey) := by
  refine ⟨List.mergeSort_perm _ _, definitions_sorted document, ?_, filter_fragments_sorted document,
    sorted_eq_self (pairwise_sorted document), fun a b => Std.OrientedCmp.eq_swap,
    Definition.precedes_trans, fun _ _ _ _ => Definition.compare_trans,
    fun other => ⟨sorted_eq_sorted_iff, fun agrees => ?_⟩⟩
  · exact (pairwise_fragments_sorted document).imp Text.bytes_le_bytes_iff.2
  · rw [canonicalKey, canonicalKey, sorted_eq_sorted_iff.2 agrees]

/-- Two fragments of one name, which stand in one order in both documents, around one with a smaller
name and an operation. -/
theorem sorted_isStable_of_repeated :
    let fragment (name : String) (items : Selections) : Fragment :=
      ⟨.nowhere, name, "T", [], .nowhere, items⟩
    let query : Definition := .operation ⟨none, .nowhere, [.spread .nowhere "b" []]⟩
    let first := fragment "b" [.spread .nowhere "C" []]
    let second := fragment "b" []
    let other := fragment "C" []
    (Document.mk [.fragment first, .fragment second, query, .fragment other]).canonicalKey =
      (Document.mk [.fragment other, .fragment first, query, .fragment second]).canonicalKey ∧
    (Document.mk [.fragment first, .fragment second]).sorted ≠
      (Document.mk [.fragment second, .fragment first]).sorted := by
  intro fragment query first second other
  have ⟨_, _, _, _, _, _, _, _, unique⟩ :=
    sorted_isStable ⟨[.fragment other, .fragment first, query, .fragment second]⟩
  have ⟨_, _, _, _, _, _, _, _, stable⟩ := sorted_isStable ⟨[.fragment second, .fragment first]⟩
  constructor
  · refine (unique _).2 ⟨rfl, fun name => ?_⟩
    change [first, second, other].filter (·.name = name) =
      [other, first, second].filter (·.name = name)
    by_cases b : "b" = name
    · subst b
      rfl
    · simp [List.filter_cons, fragment, first, second, other, b]
  · intro same
    have agrees := ((stable _).1.1 same).fragments "b"
    have empty := congrArg (List.map fun found => found.selectionSet.items.isEmpty) agrees
    exact absurd empty (by decide)

end Document

end PersistedDocuments.GraphQL
