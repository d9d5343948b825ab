import PersistedDocuments.Canonical

/-!
# The canonical order of definitions

`Definition.precedes` is a total preorder: operations tie with one another, and so do fragments with
one name. A document whose definitions already stand in this order is its own canonical form, since
sorting is stable.
-/

namespace PersistedDocuments.GraphQL

namespace Definition

@[simp] theorem precedes_operation (operation : Operation) (other : Definition) :
    (Definition.operation operation).precedes other = true := by
  cases other <;> rfl

@[simp] theorem precedes_fragment (left right : Fragment) :
    (Definition.fragment left).precedes (.fragment right) =
      (Ord.compare left.name right.name).isLE := rfl

theorem precedes_trans (first second third : Definition)
    (left : first.precedes second = true) (right : second.precedes third = true) :
    first.precedes third = true := by
  cases first with
  | operation operation => exact precedes_operation operation third
  | fragment first =>
      cases second with
      | operation _ => cases left
      | fragment second =>
          cases third with
          | operation _ => cases right
          | fragment third =>
              rw [precedes_fragment] at left right ⊢
              exact Std.TransCmp.isLE_trans left right

theorem precedes_total (left right : Definition) :
    (left.precedes right || right.precedes left) = true := by
  cases left with
  | operation operation => simp
  | fragment left =>
      cases right with
      | operation operation => simp
      | fragment right =>
          rw [precedes_fragment, precedes_fragment, Std.OrientedOrd.eq_swap (a := right.name)]
          cases Ord.compare left.name right.name <;> rfl

/-- Fragments that tie in the canonical order have one name. -/
theorem name_eq_of_precedes {left right : Fragment}
    (forward : (Definition.fragment left).precedes (.fragment right) = true)
    (backward : (Definition.fragment right).precedes (.fragment left) = true) :
    left.name = right.name := by
  rw [precedes_fragment] at forward backward
  rw [Std.OrientedOrd.eq_swap (a := right.name)] at backward
  apply Std.LawfulEqOrd.eq_of_compare
  cases order : Ord.compare left.name right.name <;> simp_all

end Definition

/-- A document whose definitions stand in canonical order is not changed by sorting. -/
theorem Document.sorted_eq_self {document : Document}
    (ordered : document.definitions.Pairwise fun a b => a.precedes b = true) :
    document.sorted = document := by
  rw [Document.sorted, List.mergeSort_of_pairwise ordered]

/-- Sorting commutes with a change of definitions that does not change their order. -/
theorem Document.sorted_map (document : Document) {change : Definition → Definition}
    (sameOrder : ∀ a b, (change a).precedes (change b) = a.precedes b) :
    Document.sorted ⟨document.definitions.map change⟩ =
      ⟨document.sorted.definitions.map change⟩ := by
  rw [sorted, sorted, List.map_mergeSort fun a _ b _ => (sameOrder a b).symm]

end PersistedDocuments.GraphQL
