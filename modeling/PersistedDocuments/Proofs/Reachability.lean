import Mathlib.Logic.Relation
import PersistedDocuments.Reachable

/-!
# What the walk through fragments finds

A name is reached from given names if it is one of them, or if the first definition of a reached
name spreads it. The walk collects exactly the reached names and fails exactly if one of them has no
definition. It looks at nothing but the spreads in their first definitions, so two documents that
agree on these are walked in the same way.
-/

namespace PersistedDocuments.GraphQL.Document

variable {document other : Document} {name : String} {fragment : Fragment}
variable {visited todo rest names : List String}

/-- The first definition of the one name spreads the other. -/
def Links (document : Document) (name next : String) : Prop :=
  ∃ fragment, document.fragment? name = some fragment ∧ next ∈ fragment.selectionSet.spreads

/-- The name is one of the given ones, or they lead to it through first definitions. -/
def Reaches (document : Document) (start : List String) (name : String) : Prop :=
  ∃ first ∈ start, Relation.ReflTransGen document.Links first name

namespace Reaches

theorem of_mem (present : name ∈ todo) : document.Reaches todo name := ⟨name, present, .refl⟩

theorem mono (subset : rest ⊆ todo) (reached : document.Reaches rest name) :
    document.Reaches todo name := by
  rcases reached with ⟨first, present, path⟩
  exact ⟨first, subset present, path⟩

/-- What the definition of a name leads to, the name leads to. -/
theorem enter (defined : document.fragment? name = some fragment) {found : String}
    (reached : document.Reaches (fragment.selectionSet.spreads ++ rest) found) :
    document.Reaches (name :: rest) found := by
  rcases reached with ⟨first, present, path⟩
  rcases List.mem_append.1 present with inside | later
  · exact ⟨name, List.mem_cons_self, .head ⟨fragment, defined, inside⟩ path⟩
  · exact ⟨first, List.mem_cons_of_mem _ later, path⟩

end Reaches

/-! ## Steps of the walk -/

@[simp] theorem visit_nil : document.visit visited [] = .ok visited := by
  rw [visit]

theorem visit_undefined (undefined : document.fragment? name = none) :
    document.visit visited (name :: rest) = .error (.missingFragment name) := by
  rw [visit]
  split
  · rfl
  · next defined => rw [undefined] at defined; cases defined

theorem visit_known (defined : document.fragment? name = some fragment)
    (known : name ∈ visited) :
    document.visit visited (name :: rest) = document.visit visited rest := by
  rw [visit]
  split
  · next undefined => rw [undefined] at defined; cases defined
  · rw [dif_pos known]

theorem visit_fresh (defined : document.fragment? name = some fragment)
    (fresh : name ∉ visited) :
    document.visit visited (name :: rest) =
      document.visit (name :: visited) (fragment.selectionSet.spreads ++ rest) := by
  rw [visit]
  split
  · next undefined => rw [undefined] at defined; cases defined
  · next found same =>
      cases Option.some.inj (same.symm.trans defined)
      rw [dif_neg fresh]

/-! ## Whole walks -/

/-- Where documents agree on the spreads of a name, one has a definition if the other has. -/
theorem exists_of_agree
    (agree : (document.fragment? name).map (·.selectionSet.spreads) =
      (other.fragment? name).map (·.selectionSet.spreads))
    (defined : document.fragment? name = some fragment) :
    ∃ found, other.fragment? name = some found ∧
      found.selectionSet.spreads = fragment.selectionSet.spreads := by
  rw [defined] at agree
  exact Option.map_eq_some_iff.1 agree.symm

/-- The walk depends on the names that the first definitions of reached names spread and on nothing
else in the document. -/
theorem visit_congr
    (agree : ∀ name, document.Reaches todo name →
      (document.fragment? name).map (·.selectionSet.spreads) =
        (other.fragment? name).map (·.selectionSet.spreads)) :
    document.visit visited todo = other.visit visited todo := by
  induction visited, todo using Document.visit.induct document with
  | case1 visited => rw [visit_nil, visit_nil]
  | case2 visited name rest undefined =>
      have otherUndefined : other.fragment? name = none := by
        simpa [undefined] using (agree name (.of_mem List.mem_cons_self)).symm
      rw [visit_undefined undefined, visit_undefined otherUndefined]
  | case3 visited name rest fragment defined known ih =>
      rcases exists_of_agree (agree name (.of_mem List.mem_cons_self)) defined with
        ⟨found, otherDefined, _⟩
      rw [visit_known defined known, visit_known otherDefined known]
      exact ih fun name reached => agree name (reached.mono (List.subset_cons_self _ _))
  | case4 visited name rest fragment defined fresh ih =>
      rcases exists_of_agree (agree name (.of_mem List.mem_cons_self)) defined with
        ⟨found, otherDefined, spreads⟩
      rw [visit_fresh defined fresh, visit_fresh otherDefined fresh, spreads]
      exact ih fun name reached => agree name (reached.enter defined)

/-- The walk fails only where a reached name has no definition. -/
theorem visit_eq_error {failure : Failure}
    (failed : document.visit visited todo = .error failure) :
    ∃ name, failure = .missingFragment name ∧ document.Reaches todo name ∧
      document.fragment? name = none := by
  induction visited, todo using Document.visit.induct document with
  | case1 visited => rw [visit_nil] at failed; cases failed
  | case2 visited name rest undefined =>
      rw [visit_undefined undefined] at failed
      cases failed
      exact ⟨name, rfl, .of_mem List.mem_cons_self, undefined⟩
  | case3 visited name rest fragment defined known ih =>
      rw [visit_known defined known] at failed
      rcases ih failed with ⟨missing, same, reached, undefined⟩
      exact ⟨missing, same, reached.mono (List.subset_cons_self _ _), undefined⟩
  | case4 visited name rest fragment defined fresh ih =>
      rw [visit_fresh defined fresh] at failed
      rcases ih failed with ⟨missing, same, reached, undefined⟩
      exact ⟨missing, same, reached.enter defined, undefined⟩

/-- What each step keeps of the names met and the names left to work off holds at the end of a walk
that succeeds, when none are left. -/
theorem visit_keeps {motive : List String → List String → Prop}
    (pass : ∀ {met left name fragment}, document.fragment? name = some fragment → name ∈ met →
      motive met (name :: left) → motive met left)
    (enter : ∀ {met left name fragment}, document.fragment? name = some fragment → name ∉ met →
      motive met (name :: left) → motive (name :: met) (fragment.selectionSet.spreads ++ left))
    (walked : document.visit visited todo = .ok names) (start : motive visited todo) :
    motive names [] := by
  induction visited, todo using Document.visit.induct document with
  | case1 visited =>
      rw [visit_nil] at walked
      cases walked
      exact start
  | case2 visited name rest undefined => rw [visit_undefined undefined] at walked; cases walked
  | case3 visited name rest fragment defined known ih =>
      rw [visit_known defined known] at walked
      exact ih walked (pass defined known start)
  | case4 visited name rest fragment defined fresh ih =>
      rw [visit_fresh defined fresh] at walked
      exact ih walked (enter defined fresh start)

/-- The walk collects reached names only. -/
theorem reaches_of_mem_visit (walked : document.visit visited todo = .ok names)
    (present : name ∈ names) : name ∈ visited ∨ document.Reaches todo name := by
  refine visit_keeps (motive := fun met left => ∀ name, name ∈ met ∨ document.Reaches left name →
    name ∈ visited ∨ document.Reaches todo name) ?_ ?_ walked (fun _ => id) name (.inl present)
  · intro met left name fragment _ _ within other found
    exact within other (found.imp_right (.mono (List.subset_cons_self _ _)))
  · intro met left name fragment defined _ within other found
    rcases found with present | reached
    · rcases List.mem_cons.1 present with rfl | old
      · exact within other (.inr (.of_mem List.mem_cons_self))
      · exact within other (.inl old)
    · exact within other (.inr (reached.enter defined))

/-- The given names, and the names that the first definitions of the names met spread, have all been
met or are left to work off. -/
structure Covers (document : Document) (given met left : List String) : Prop where
  all : given ⊆ met ++ left
  spreads : ∀ name ∈ met, ∃ fragment, document.fragment? name = some fragment ∧
    fragment.selectionSet.spreads ⊆ met ++ left

namespace Covers

variable {given met left : List String}

theorem pass (known : name ∈ met) (covers : document.Covers given met (name :: left)) :
    document.Covers given met left := by
  have same : met ++ name :: left ⊆ met ++ left :=
    List.append_subset.2 ⟨List.subset_append_left _ _,
      List.cons_subset.2 ⟨List.mem_append_left _ known, List.subset_append_right _ _⟩⟩
  refine ⟨List.Subset.trans covers.all same, fun other present => ?_⟩
  rcases covers.spreads other present with ⟨found, defined, spreads⟩
  exact ⟨found, defined, List.Subset.trans spreads same⟩

theorem enter (defined : document.fragment? name = some fragment)
    (covers : document.Covers given met (name :: left)) :
    document.Covers given (name :: met) (fragment.selectionSet.spreads ++ left) := by
  have more : met ++ name :: left ⊆ name :: met ++ (fragment.selectionSet.spreads ++ left) := by
    intro other present
    simp only [List.mem_append, List.mem_cons] at present ⊢
    rcases present with old | rfl | later
    · exact .inl (.inr old)
    · exact .inl (.inl rfl)
    · exact .inr (.inr later)
  refine ⟨List.Subset.trans covers.all more, fun other present => ?_⟩
  rcases List.mem_cons.1 present with rfl | old
  · refine ⟨fragment, defined, fun inner inside => ?_⟩
    exact List.mem_append_right _ (List.mem_append_left _ inside)
  · rcases covers.spreads other old with ⟨found, alsoDefined, spreads⟩
    exact ⟨found, alsoDefined, List.Subset.trans spreads more⟩

end Covers

/-- A walk from the beginning ends with names that cover those that it began with. -/
theorem covers_of_visit (walked : document.visit [] todo = .ok names) :
    document.Covers todo names [] := by
  refine visit_keeps (fun _ known covers => covers.pass known)
    (fun defined _ covers => covers.enter defined) walked ?_
  exact ⟨List.Subset.refl _, fun _ absent => absurd absent List.not_mem_nil⟩

/-- A walk from the beginning collects exactly the reached names, each of which has a definition. -/
theorem mem_iff_of_visit (walked : document.visit [] todo = .ok names) :
    (∀ name, name ∈ names ↔ document.Reaches todo name) ∧
      ∀ name, document.Reaches todo name → document.fragment? name ≠ none := by
  rcases covers_of_visit walked with ⟨all, each⟩
  rw [List.append_nil] at all each
  have collected : ∀ name, document.Reaches todo name → name ∈ names := by
    rintro name ⟨first, present, path⟩
    induction path with
    | refl => exact all present
    | tail _ link ih =>
        rcases link with ⟨fragment, defined, spread⟩
        rcases each _ ih with ⟨found, alsoDefined, spreads⟩
        cases defined.symm.trans alsoDefined
        exact spreads spread
  constructor
  · intro name
    refine ⟨fun present => ?_, collected name⟩
    exact (reaches_of_mem_visit walked present).resolve_left List.not_mem_nil
  · intro name reached undefined
    rcases each name (collected name reached) with ⟨fragment, defined, _⟩
    rw [undefined] at defined
    cases defined

end PersistedDocuments.GraphQL.Document
