import Mathlib.Data.List.Basic

/-!
# Stable sorting

Sorting is stable, so elements that tie stay in their order. Hence leaving out elements before it
and after it comes to the same, and lists in which the elements of every key stand in the same order
are sorted in the same way.
-/

namespace PersistedDocuments

variable {α : Type} {le : α → α → Bool}

/-- A list falls in one way into a front of elements that pass a test and a back of others. -/
theorem append_inj_of_test {test : α → Bool} {front back otherFront otherBack : List α}
    (same : front ++ back = otherFront ++ otherBack) (passes : ∀ x ∈ front, test x = true)
    (fails : ∀ x ∈ back, test x = false) (otherPasses : ∀ x ∈ otherFront, test x = true)
    (otherFails : ∀ x ∈ otherBack, test x = false) : front = otherFront ∧ back = otherBack := by
  have fronts := congrArg (List.filter test) same
  rw [List.filter_append, List.filter_append, List.filter_eq_self.2 passes,
    List.filter_eq_self.2 otherPasses, List.filter_eq_nil_iff.2 (by simpa using fails),
    List.filter_eq_nil_iff.2 (by simpa using otherFails), List.append_nil, List.append_nil]
    at fronts
  rw [fronts] at same
  exact ⟨fronts, List.append_cancel_left same⟩

/-- Sorting is stable, so leaving out elements before it and after it comes to the same. -/
theorem filter_mergeSort (trans : ∀ a b c, le a b → le b c → le a c)
    (total : ∀ a b, le a b || le b a) (keep : α → Bool) (items : List α) :
    (items.mergeSort le).filter keep = (items.filter keep).mergeSort le := by
  induction items with
  | nil => simp
  | cons first rest ih =>
      have order := List.pairwise_mergeSort trans total (first :: rest)
      rcases List.mergeSort_cons trans total first rest with ⟨front, back, sorted, others, before⟩
      rw [sorted] at order ⊢
      rw [others, List.filter_append] at ih
      have behind : ∀ item ∈ back, le first item = true :=
        (List.pairwise_cons.1 (List.pairwise_append.1 order).2.1).1
      rw [List.filter_append]
      cases kept : keep first with
      | false =>
          have left : ¬keep first = true := by simp [kept]
          rw [List.filter_cons_of_neg left, List.filter_cons_of_neg left, ih]
      | true =>
          have keptOrder := List.pairwise_mergeSort trans total (first :: rest.filter keep)
          rcases List.mergeSort_cons trans total first (rest.filter keep) with
            ⟨keptFront, keptBack, keptSorted, keptOthers, keptBefore⟩
          rw [keptSorted] at keptOrder
          have keptBehind : ∀ item ∈ keptBack, le first item = true :=
            (List.pairwise_cons.1 (List.pairwise_append.1 keptOrder).2.1).1
          rw [keptOthers] at ih
          have ⟨fronts, backs⟩ := append_inj_of_test ih
            (fun item among => before item (List.mem_filter.1 among).1)
            (fun item among => by rw [behind item (List.mem_filter.1 among).1]; rfl)
            keptBefore (fun item among => by rw [keptBehind item among]; rfl)
          rw [List.filter_cons_of_pos kept, List.filter_cons_of_pos kept, keptSorted, fronts, backs]

/-- Elements that all tie with one another stay in their order. -/
theorem filter_mergeSort_of_ties (trans : ∀ a b c, le a b → le b c → le a c)
    (total : ∀ a b, le a b || le b a) {keep : α → Bool}
    (ties : ∀ a b, keep a = true → keep b = true → le a b = true) (items : List α) :
    (items.mergeSort le).filter keep = items.filter keep := by
  rw [filter_mergeSort trans total, List.mergeSort_of_pairwise]
  exact List.Pairwise.imp_of_mem
    (fun left right _ => ties _ _ (List.mem_filter.1 left).2 (List.mem_filter.1 right).2)
    (List.pairwise_of_forall fun _ _ => trivial)

/-- Lists in the order of their keys are equal if the elements of every key stand in the same
order. -/
theorem eq_of_filter_key {key : α → String} {items others : List α}
    (sorted : items.Pairwise fun a b => key a ≤ key b)
    (othersSorted : others.Pairwise fun a b => key a ≤ key b)
    (same : ∀ k, items.filter (key · = k) = others.filter (key · = k)) : items = others := by
  have among {item : α} {items others : List α}
      (same : ∀ k, items.filter (key · = k) = others.filter (key · = k)) (present : item ∈ items) :
      item ∈ others := by
    have kept : item ∈ items.filter (key · = key item) := List.mem_filter.2 ⟨present, by simp⟩
    rw [same] at kept
    exact (List.mem_filter.1 kept).1
  induction items generalizing others with
  | nil =>
      cases others with
      | nil => rfl
      | cons other others => cases among (fun k => (same k).symm) List.mem_cons_self
  | cons item items ih =>
      cases others with
      | nil => cases among same List.mem_cons_self
      | cons other others =>
          have ⟨least, rest⟩ := List.pairwise_cons.1 sorted
          have ⟨otherLeast, otherRest⟩ := List.pairwise_cons.1 othersSorted
          -- Either head is in both lists, so neither key is smaller than the other.
          have sameKey : key item = key other := by
            apply String.le_antisymm
            · rcases List.mem_cons.1 (among (fun k => (same k).symm) List.mem_cons_self) with
                here | behind
              · exact here ▸ String.le_refl _
              · exact least other behind
            · rcases List.mem_cons.1 (among same List.mem_cons_self) with here | behind
              · exact here ▸ String.le_refl _
              · exact otherLeast item behind
          have heads := same (key item)
          rw [List.filter_cons_of_pos (by simp), List.filter_cons_of_pos (by simp [sameKey])] at heads
          have ⟨sameItem, _⟩ := List.cons.inj heads
          subst sameItem
          rw [ih rest otherRest fun k => ?_]
          have tails := same k
          by_cases held : key item = k
          · rw [List.filter_cons_of_pos (by simp [held]), List.filter_cons_of_pos (by simp [held])]
              at tails
            exact (List.cons.inj tails).2
          · rwa [List.filter_cons_of_neg (by simp [held]), List.filter_cons_of_neg (by simp [held])]
              at tails

end PersistedDocuments
