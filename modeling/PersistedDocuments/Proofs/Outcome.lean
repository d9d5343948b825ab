import Mathlib.Data.List.Forall2

/-!
# Successful computations

When a computation that may fail succeeds, its parts have succeeded with the values that the later
ones were given.
-/

namespace PersistedDocuments

variable {ε α β : Type}

theorem bind_eq_ok {first : Except ε α} {next : α → Except ε β} {result : β} :
    first >>= next = .ok result ↔ ∃ value, first = .ok value ∧ next value = .ok result := by
  cases first with
  | error failure => simp [bind, Except.bind]
  | ok value => simp [bind, Except.bind]

theorem map_eq_ok {first : Except ε α} {change : α → β} {result : β} :
    first.map change = .ok result ↔ ∃ value, first = .ok value ∧ change value = result := by
  cases first with
  | error failure => simp [Except.map]
  | ok value => simp [Except.map]

theorem mapError_eq_ok {φ : Type} {computed : Except ε α} {change : ε → φ} {result : α} :
    computed.mapError change = .ok result ↔ computed = .ok result := by
  cases computed with
  | error failure => simp [Except.mapError]
  | ok value => simp [Except.mapError]

theorem pure_eq_ok {value result : α} :
    (pure value : Except ε α) = .ok result ↔ value = result :=
  ⟨Except.ok.inj, congrArg _⟩

/-- A computation in two parts fails exactly if one of them does. -/
theorem bind_fails_iff {first : Except ε α} {next : α → Except ε β} :
    (∃ failure, first >>= next = .error failure) ↔
      (∃ failure, first = .error failure) ∨
        ∃ value, first = .ok value ∧ ∃ failure, next value = .error failure := by
  cases first with
  | error failure => simp [bind, Except.bind]
  | ok value => simp [bind, Except.bind]

/-- A traversal succeeds exactly if every item does, each with the result in its place. -/
theorem mapM_eq_ok {f : α → Except ε β} {items : List α} {results : List β} :
    items.mapM f = .ok results ↔ List.Forall₂ (fun item result => f item = .ok result) items results
    := by
  induction items generalizing results with
  | nil => cases results <;> simp [pure, Except.pure]
  | cons item rest ih =>
      simp only [List.mapM_cons, bind_eq_ok, pure_eq_ok, ih]
      cases results with
      | nil => simp
      | cons result others =>
          rw [List.forall₂_cons]
          constructor
          · rintro ⟨value, first, values, tail, same⟩
            cases same
            exact ⟨first, tail⟩
          · rintro ⟨first, tail⟩
            exact ⟨result, first, others, tail, rfl⟩

/-- A traversal fails exactly if an item does. -/
theorem mapM_fails_iff {f : α → Except ε β} {items : List α} :
    (∃ failure, items.mapM f = .error failure) ↔
      ∃ item ∈ items, ∃ failure, f item = .error failure := by
  induction items with
  | nil => simp [pure, Except.pure]
  | cons item rest ih =>
      simp only [List.mapM_cons, bind_fails_iff, ih, List.exists_mem_cons_iff]
      cases f item with
      | error failure => simp
      | ok value => simp [pure, Except.pure]

/-- A run over items fails exactly if it reaches one at which its step fails. -/
theorem foldlM_eq_error {σ : Type} {step : σ → α → Except ε σ} {items : List α} {state : σ}
    {failure : ε} :
    items.foldlM step state = .error failure ↔
      ∃ before item after reached, items = before ++ item :: after ∧
        before.foldlM step state = .ok reached ∧ step reached item = .error failure := by
  constructor
  · intro failed
    induction items generalizing state with
    | nil => cases failed
    | cons item rest ih =>
        cases first : step state item with
        | error cause =>
            rw [List.foldlM_cons, first] at failed
            cases failed
            exact ⟨[], item, rest, state, rfl, rfl, first⟩
        | ok next =>
            rw [List.foldlM_cons, first] at failed
            rcases ih failed with ⟨before, stop, after, reached, rfl, run, stops⟩
            refine ⟨item :: before, stop, after, reached, rfl, ?_, stops⟩
            rw [List.foldlM_cons, first]
            exact run
  · rintro ⟨before, item, after, reached, rfl, run, stops⟩
    rw [List.foldlM_append, run]
    change (item :: after).foldlM step reached = _
    rw [List.foldlM_cons, stops]
    rfl

/-- In a successful traversal the item at a place has its result at the same place. -/
theorem exists_getElem?_of_forall₂ {related : α → β → Prop} {items : List α} {results : List β}
    (each : List.Forall₂ related items results) {i : Nat} {item : α}
    (place : items[i]? = some item) :
    ∃ result, results[i]? = some result ∧ related item result := by
  induction each generalizing i with
  | nil => cases place
  | @cons first result _ _ head _ ih =>
      cases i with
      | zero =>
          cases place
          exact ⟨result, rfl, head⟩
      | succ i => exact ih place

/-- Every result of a successful traversal is that of an item. -/
theorem exists_of_mem_forall₂ {related : α → β → Prop} {items : List α} {results : List β}
    (each : List.Forall₂ related items results) {result : β} (present : result ∈ results) :
    ∃ item ∈ items, related item result := by
  induction each with
  | nil => cases present
  | @cons item _ _ _ head _ ih =>
      rcases List.mem_cons.1 present with rfl | later
      · exact ⟨item, List.mem_cons_self, head⟩
      · rcases ih later with ⟨item, among, holds⟩
        exact ⟨item, List.mem_cons_of_mem _ among, holds⟩

/-- If every item has a result, there is a list of results. -/
theorem exists_forall₂ {related : α → β → Prop} {items : List α}
    (each : ∀ item ∈ items, ∃ result, related item result) :
    ∃ results, List.Forall₂ related items results := by
  induction items with
  | nil => exact ⟨[], .nil⟩
  | cons item rest ih =>
      have ⟨⟨result, head⟩, later⟩ := List.forall_mem_cons.1 each
      rcases ih later with ⟨results, tail⟩
      exact ⟨result :: results, .cons head tail⟩

/-- A traversal in which every item has a value. -/
theorem mapM_eq_some {f : α → Option β} {value : α → β} {items : List α}
    (each : ∀ item ∈ items, f item = some (value item)) :
    items.mapM f = some (items.map value) := by
  induction items with
  | nil => rfl
  | cons item rest ih =>
      have ⟨head, later⟩ := List.forall_mem_cons.1 each
      rw [List.mapM_cons, head, ih later]
      rfl

/-- A traversal in which an item has none. -/
theorem mapM_eq_none {f : α → Option β} {items : List α} {item : α} (among : item ∈ items)
    (missing : f item = none) : items.mapM f = none := by
  induction items with
  | nil => cases among
  | cons first rest ih =>
      rw [List.mapM_cons]
      rcases List.mem_cons.1 among with rfl | later
      · rw [missing]
        rfl
      · rw [ih later]
        cases f first <;> rfl

/-- A traversal whose results are all changed. -/
theorem mapM_map_result {γ : Type} (f : α → Except ε β) (change : β → γ) (items : List α) :
    (items.mapM fun item => (f item).map change) = (items.mapM f).map (List.map change) := by
  induction items with
  | nil => rfl
  | cons item rest ih =>
      rw [List.mapM_cons, List.mapM_cons, ih]
      cases f item with
      | error failure => rfl
      | ok value => cases rest.mapM f <;> rfl

end PersistedDocuments
