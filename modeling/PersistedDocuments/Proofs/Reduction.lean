import PersistedDocuments.Proofs.CanonicalOrder
import PersistedDocuments.Proofs.Reachability
import PersistedDocuments.Reduction

/-!
# What a reduction depends on

The walk through the fragments of a document asks only which names they spread, and of several
definitions with one name only the first counts. So two documents that agree on the first
definitions of the reached names reduce an operation in the same way, in whatever order and among
whatever other definitions these stand. A reduction fails exactly if a reached name has no
definition. A reduced document is in canonical order, and it is its own reduction.
-/

namespace PersistedDocuments.GraphQL

variable {document other : Document} {name : String} {fragment : Fragment} {names : List String}

/-! ## The fragments that are kept -/

namespace Fragment

/-- A fragment is kept if no earlier one has its name. -/
theorem mem_firsts {fragments : List Fragment} :
    fragment ∈ firsts fragments ↔
      fragments.find? (fun found => found.name = fragment.name) = some fragment := by
  induction fragments with
  | nil => simp [firsts]
  | cons first rest ih =>
      simp only [firsts, List.mem_cons, List.mem_filter, ih, List.find?_cons]
      by_cases same : first.name = fragment.name
      · simp [same, eq_comm]
      · have different : fragment ≠ first := by
          rintro rfl
          exact same rfl
        simp [same, different, Ne.symm same]

theorem nodup_names_firsts (fragments : List Fragment) :
    ((firsts fragments).map Fragment.name).Nodup := by
  induction fragments with
  | nil => exact .nil
  | cons first rest ih =>
      rw [firsts, List.map_cons, List.nodup_cons]
      constructor
      · simp
      · exact (List.filter_sublist.map _).nodup ih

theorem firsts_map {rename : Fragment → Fragment}
    (keeps : ∀ fragment, (rename fragment).name = fragment.name) (fragments : List Fragment) :
    firsts (fragments.map rename) = (firsts fragments).map rename := by
  induction fragments with
  | nil => rfl
  | cons first rest ih =>
      rw [List.map_cons, firsts, firsts, ih, List.map_cons, List.filter_map]
      congr 3
      funext fragment
      simp [keeps]

end Fragment

namespace Document

/-- The definitions that are kept for the given names. -/
def kept (document : Document) (names : List String) : List Fragment :=
  Fragment.firsts (document.fragments.filter fun fragment => names.contains fragment.name)

/-- A reduction is the operation followed by the definitions kept for the names that it reaches. -/
theorem reduce_eq (document : Document) (operation : Operation) :
    document.reduce operation =
      (document.reachable operation.selectionSet).map fun names =>
        ⟨.operation operation ::
          ((document.kept names).map Definition.fragment).mergeSort Definition.precedes⟩ := by
  rw [reduce]
  cases document.reachable operation.selectionSet <;> rfl

/-- What is kept for a name is its first definition. -/
theorem mem_kept :
    fragment ∈ document.kept names ↔
      fragment.name ∈ names ∧ document.fragment? fragment.name = some fragment := by
  rw [kept, Fragment.mem_firsts, fragment?, List.find?_filter]
  by_cases needed : fragment.name ∈ names
  · have same (found : Fragment) : decide (names.contains found.name = true ∧
        decide (found.name = fragment.name) = true) = decide (found.name = fragment.name) := by
      by_cases equal : found.name = fragment.name <;> simp [equal, needed]
    simp only [same, needed, true_and]
  · refine iff_of_false (fun found => ?_) fun kept => needed kept.1
    have chosen := List.find?_some found
    simp [needed] at chosen

theorem nodup_kept (document : Document) (names : List String) : (document.kept names).Nodup :=
  List.Pairwise.of_map Fragment.name (fun _ _ different same => different (congrArg _ same))
    (Fragment.nodup_names_firsts _)

/-- Documents that agree on the first definitions of the needed names keep the same ones, in the
same canonical order. -/
theorem sort_kept_congr {otherNames : List String}
    (sameNames : ∀ name, name ∈ names ↔ name ∈ otherNames)
    (agree : ∀ name ∈ names, document.fragment? name = other.fragment? name) :
    ((document.kept names).map Definition.fragment).mergeSort Definition.precedes =
      ((other.kept otherNames).map Definition.fragment).mergeSort Definition.precedes := by
  have sameKept : (document.kept names).Perm (other.kept otherNames) := by
    rw [List.perm_ext_iff_of_nodup (nodup_kept ..) (nodup_kept ..)]
    intro fragment
    rw [mem_kept, mem_kept, ← sameNames]
    exact and_congr_right fun needed => by rw [agree _ needed]
  apply List.Perm.eq_of_pairwise ?_ (List.pairwise_mergeSort Definition.precedes_trans
    Definition.precedes_total _) (List.pairwise_mergeSort Definition.precedes_trans
    Definition.precedes_total _)
  · exact (List.mergeSort_perm _ _).trans ((sameKept.map _).trans (List.mergeSort_perm _ _).symm)
  · intro left right leftKept rightKept forward backward
    rw [List.mem_mergeSort, List.mem_map] at leftKept rightKept
    rcases leftKept with ⟨left, leftKept, rfl⟩
    rcases rightKept with ⟨right, rightKept, rfl⟩
    have rightHere : right ∈ document.kept names := sameKept.mem_iff.2 rightKept
    have sameName := Definition.name_eq_of_precedes forward backward
    have leftFirst := (mem_kept.1 leftKept).2
    rw [sameName, (mem_kept.1 rightHere).2] at leftFirst
    rw [Option.some.inj leftFirst]

/-- The reduction depends on the first definitions of the reached names and on nothing else. -/
theorem reduce_congr {operation : Operation}
    (agree : ∀ name, document.Reaches operation.selectionSet.spreads name →
      document.fragment? name = other.fragment? name) :
    document.reduce operation = other.reduce operation := by
  have sameWalk : document.reachable operation.selectionSet =
      other.reachable operation.selectionSet :=
    visit_congr fun name reached => by rw [agree name reached]
  rw [reduce_eq, reduce_eq, ← sameWalk]
  cases reached : document.reachable operation.selectionSet with
  | error failure => rfl
  | ok names =>
      have agreeHere : ∀ name ∈ names, document.fragment? name = other.fragment? name :=
        fun name present => agree name (((mem_iff_of_visit reached).1 name).1 present)
      simp only [Except.map]
      rw [sort_kept_congr (fun _ => Iff.rfl) agreeHere]

/-- A reduction fails only where a reached name has no definition. -/
theorem reduce_eq_error {operation : Operation} {failure : Failure}
    (failed : document.reduce operation = .error failure) :
    ∃ name, failure = .missingFragment name := by
  rw [reduce_eq] at failed
  cases reached : document.reachable operation.selectionSet with
  | error cause =>
      rw [reached] at failed
      cases failed
      exact (visit_eq_error reached).imp fun _ found => found.1
  | ok names => rw [reached] at failed; cases failed

/-- A reduction fails exactly if a reached name has no definition. -/
theorem reduce_fails_iff {operation : Operation} :
    (∃ failure, document.reduce operation = .error failure) ↔
      ∃ name, document.Reaches operation.selectionSet.spreads name ∧
        document.fragment? name = none := by
  rw [reduce_eq]
  cases reached : document.reachable operation.selectionSet with
  | error failure =>
      rcases visit_eq_error reached with ⟨name, _, found, undefined⟩
      exact iff_of_true ⟨failure, rfl⟩ ⟨name, found, undefined⟩
  | ok names =>
      refine iff_of_false (fun ⟨_, failed⟩ => nomatch failed) ?_
      rintro ⟨name, found, undefined⟩
      exact (mem_iff_of_visit reached).2 name found undefined

/-- A reduced document is in canonical order. -/
theorem sorted_of_reduce {operation : Operation} {reduced : Document}
    (succeeded : document.reduce operation = .ok reduced) : reduced.sorted = reduced := by
  rw [reduce_eq] at succeeded
  cases reached : document.reachable operation.selectionSet with
  | error failure => rw [reached] at succeeded; cases succeeded
  | ok names =>
      rw [reached] at succeeded
      cases succeeded
      apply sorted_eq_self
      exact List.pairwise_cons.2 ⟨fun definition _ => Definition.precedes_operation ..,
        List.pairwise_mergeSort Definition.precedes_trans Definition.precedes_total _⟩

/-- The key of a reduced document is its printed form. -/
theorem canonicalKey_of_reduce {operation : Operation} {reduced : Document}
    (succeeded : document.reduce operation = .ok reduced) :
    reduced.canonicalKey = reduced.print := by
  rw [canonicalKey, sorted_of_reduce succeeded]

/-! ## Reducing twice -/

/-- A reduced document holds the one operation. -/
theorem operations_of_reduce {operation : Operation} {reduced : Document}
    (succeeded : document.reduce operation = .ok reduced) : reduced.operations = [operation] := by
  rw [reduce_eq] at succeeded
  cases reached : document.reachable operation.selectionSet with
  | error failure => rw [reached] at succeeded; cases succeeded
  | ok names =>
      rw [reached] at succeeded
      cases succeeded
      rw [operations, List.filterMap_cons]
      simp only [Definition.operation?]
      rw [List.filterMap_eq_nil_iff.2]
      intro definition present
      rcases List.mem_map.1 (List.mem_mergeSort.1 present) with ⟨fragment, _, rfl⟩
      rfl

/-- The fragments behind the operation are those that are kept, in whatever order. -/
theorem mem_fragments_reduced {operation : Operation} {kept : List Fragment} :
    fragment ∈ (⟨.operation operation ::
      (kept.map Definition.fragment).mergeSort Definition.precedes⟩ : Document).fragments ↔
      fragment ∈ kept := by
  simp only [fragments, List.filterMap_cons, Definition.fragment?, List.mem_filterMap,
    List.mem_mergeSort, List.mem_map]
  constructor
  · rintro ⟨_, ⟨found, member, rfl⟩, same⟩
    cases same
    exact member
  · intro member
    exact ⟨_, ⟨fragment, member, rfl⟩, rfl⟩

/-- A reduced document defines the reached names as the document does. -/
theorem fragment?_of_reduce {operation : Operation} {reduced : Document}
    (succeeded : document.reduce operation = .ok reduced)
    (reached : document.Reaches operation.selectionSet.spreads name) :
    reduced.fragment? name = document.fragment? name := by
  rw [reduce_eq] at succeeded
  cases walked : document.reachable operation.selectionSet with
  | error failure => rw [walked] at succeeded; cases succeeded
  | ok names =>
      rw [walked] at succeeded
      cases succeeded
      have ⟨collected, defined⟩ := mem_iff_of_visit walked
      cases first : document.fragment? name with
      | none => exact absurd first (defined name reached)
      | some fragment =>
          have named := (fragment?_eq_some first).2
          have kept : fragment ∈ document.kept names :=
            mem_kept.2 ⟨named ▸ (collected name).2 reached, named ▸ first⟩
          cases found : fragment? _ name with
          | none =>
              have absent := List.find?_eq_none.1 found fragment (mem_fragments_reduced.2 kept)
              simp [named] at absent
          | some other =>
              have ⟨member, sameName⟩ := fragment?_eq_some found
              have otherFirst := (mem_kept.1 (mem_fragments_reduced.1 member)).2
              rw [sameName, first] at otherFirst
              exact otherFirst.symm

/-- A reduced document is its own reduction. -/
theorem reduce_of_reduce {operation : Operation} {reduced : Document}
    (succeeded : document.reduce operation = .ok reduced) :
    reduced.reduce operation = .ok reduced := by
  rw [← succeeded]
  exact (reduce_congr fun name reached => (fragment?_of_reduce succeeded reached).symm).symm

end Document

end PersistedDocuments.GraphQL
