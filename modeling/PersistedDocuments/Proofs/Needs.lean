import Mathlib
import PersistedDocuments.Proofs.Reachability

/-!
# What a selection set needs

A selection set needs the fragments that are spread in it, at any depth of fields and inline
fragments, and those that are spread in the first definition of a fragment that it needs. The walk
finds exactly these names, or stops at one that has no definition. Although it works off a list of
names, it goes the way of the nested walk that goes into every selection with the names found so far
and comes back with more of them; hence this one always comes to an end.
-/

namespace PersistedDocuments.GraphQL

/-- A fragment is spread in the selection or somewhere below it. -/
inductive Selection.Spreads : Selection → String → Prop
  | spread {pos : Pos} {name : String} {directives : List Directive} :
      Selection.Spreads (.spread pos name directives) name
  | field {head : FieldHead} {span : Span} {items : Selections} {selection : Selection}
      {name : String} (inside : selection ∈ items) (below : Selection.Spreads selection name) :
      Selection.Spreads (.field head span items) name
  | inline {pos : Pos} {condition : Option String} {directives : List Directive} {span : Span}
      {items : Selections} {selection : Selection} {name : String} (inside : selection ∈ items)
      (below : Selection.Spreads selection name) :
      Selection.Spreads (.inline pos condition directives span items) name

/-- A fragment is spread somewhere in the set. -/
def SelectionSet.Spreads (set : SelectionSet) (name : String) : Prop :=
  ∃ selection ∈ set.items, selection.Spreads name

mutual
theorem Selection.mem_spreads {name : String} :
    ∀ selection : Selection, name ∈ selection.spreads ↔ selection.Spreads name
  | .field head span items => by
      rw [Selection.spreads, Selections.mem_spreads items]
      constructor
      · rintro ⟨selection, inside, below⟩
        exact .field inside below
      · rintro (_ | ⟨inside, below⟩)
        exact ⟨_, inside, below⟩
  | .spread pos other directives => by
      rw [Selection.spreads, List.mem_singleton]
      constructor
      · rintro rfl
        exact .spread
      · rintro ⟨⟩
        rfl
  | .inline pos condition directives span items => by
      rw [Selection.spreads, Selections.mem_spreads items]
      constructor
      · rintro ⟨selection, inside, below⟩
        exact .inline inside below
      · rintro (_ | _ | ⟨inside, below⟩)
        exact ⟨_, inside, below⟩

theorem Selections.mem_spreads {name : String} :
    ∀ items : Selections,
      name ∈ Selections.spreads items ↔ ∃ selection ∈ items, selection.Spreads name
  | [] => by simp [Selections.spreads]
  | selection :: rest => by
      rw [Selections.spreads, List.mem_append, Selection.mem_spreads selection,
        Selections.mem_spreads rest, List.exists_mem_cons_iff]
end

theorem SelectionSet.mem_spreads {set : SelectionSet} {name : String} :
    name ∈ set.spreads ↔ set.Spreads name :=
  Selections.mem_spreads set.items

namespace Document

variable {document : Document} {set : SelectionSet} {name : String} {fragment : Fragment}
variable {visited names : List String}

/-- The set cannot be executed without a fragment of the name. -/
inductive Needs (document : Document) (set : SelectionSet) : String → Prop
  | spread {name : String} (inside : set.Spreads name) : Needs document set name
  | through {name next : String} {fragment : Fragment} (needed : Needs document set name)
      (first : document.fragment? name = some fragment)
      (inside : fragment.selectionSet.Spreads next) : Needs document set next

/-- What a set needs is what is reached from the names that it spreads. -/
theorem needs_iff_reaches : document.Needs set name ↔ document.Reaches set.spreads name := by
  constructor
  · intro needed
    induction needed with
    | spread inside => exact .of_mem (SelectionSet.mem_spreads.2 inside)
    | through _ first inside ih =>
        rcases ih with ⟨start, spread, path⟩
        exact ⟨start, spread, path.tail ⟨_, first, SelectionSet.mem_spreads.2 inside⟩⟩
  · rintro ⟨start, spread, path⟩
    induction path with
    | refl => exact .spread (SelectionSet.mem_spreads.1 spread)
    | tail _ link ih =>
        rcases link with ⟨fragment, first, inside⟩
        exact .through ih first (SelectionSet.mem_spreads.1 inside)

theorem fragment?_eq_none_iff :
    document.fragment? name = none ↔ name ∉ document.fragments.map Fragment.name := by
  simp [fragment?]

/-! ## The nested walk -/

mutual
/-- What becomes of the names found so far in a walk through a selection and all that it leads to.
-/
inductive Enters (document : Document) :
    List String → Selection → Except Failure (List String) → Prop
  | undefined {visited : List String} {pos : Pos} {name : String} {directives : List Directive}
      (undefined : document.fragment? name = none) :
      Enters document visited (.spread pos name directives) (.error (.missingFragment name))
  | known {visited : List String} {pos : Pos} {name : String} {directives : List Directive}
      {fragment : Fragment} (defined : document.fragment? name = some fragment)
      (known : name ∈ visited) :
      Enters document visited (.spread pos name directives) (.ok visited)
  | fresh {visited : List String} {pos : Pos} {name : String} {directives : List Directive}
      {fragment : Fragment} {result : Except Failure (List String)}
      (defined : document.fragment? name = some fragment) (fresh : name ∉ visited)
      (inside : Collects document (name :: visited) fragment.selectionSet.items result) :
      Enters document visited (.spread pos name directives) result
  | field {visited : List String} {head : FieldHead} {span : Span} {items : Selections}
      {result : Except Failure (List String)} (inside : Collects document visited items result) :
      Enters document visited (.field head span items) result
  | inline {visited : List String} {pos : Pos} {condition : Option String}
      {directives : List Directive} {span : Span} {items : Selections}
      {result : Except Failure (List String)} (inside : Collects document visited items result) :
      Enters document visited (.inline pos condition directives span items) result

/-- What becomes of the names found so far in a walk through selections one after the other. -/
inductive Collects (document : Document) :
    List String → Selections → Except Failure (List String) → Prop
  | done {visited : List String} : Collects document visited [] (.ok visited)
  | next {visited between : List String} {selection : Selection} {rest : Selections}
      {result : Except Failure (List String)}
      (first : Enters document visited selection (.ok between))
      (later : Collects document between rest result) :
      Collects document visited (selection :: rest) result
  | stopped {visited : List String} {selection : Selection} {rest : Selections}
      {failure : Failure} (first : Enters document visited selection (.error failure)) :
      Collects document visited (selection :: rest) (.error failure)
end

/-- Names that are worked off one after the other may be worked off in two walks. -/
theorem visit_append (visited left right : List String) :
    document.visit visited (left ++ right) =
      (document.visit visited left).bind fun between => document.visit between right := by
  induction visited, left using Document.visit.induct document with
  | case1 visited => rw [visit_nil]; rfl
  | case2 visited name rest undefined =>
      rw [List.cons_append, visit_undefined undefined, visit_undefined undefined]
      rfl
  | case3 visited name rest fragment defined known ih =>
      rw [List.cons_append, visit_known defined known, visit_known defined known, ih]
  | case4 visited name rest fragment defined fresh ih =>
      rw [List.cons_append, visit_fresh defined fresh, visit_fresh defined fresh,
        ← List.append_assoc, ih]

/-- A walk loses none of the names found before. -/
theorem subset_of_visit {todo : List String} (walked : document.visit visited todo = .ok names) :
    visited ⊆ names := by
  refine visit_keeps (motive := fun met _ => visited ⊆ met) (fun _ _ kept => kept) ?_ walked
    (List.Subset.refl _)
  intro met left name fragment _ _ kept
  exact List.Subset.trans kept (List.subset_cons_self _ _)

/-- A walk finds no name twice. -/
theorem nodup_of_visit {todo : List String} (distinct : visited.Nodup)
    (walked : document.visit visited todo = .ok names) : names.Nodup := by
  refine visit_keeps (motive := fun met _ => met.Nodup) (fun _ _ distinct => distinct) ?_ walked
    distinct
  intro met left name fragment _ fresh distinct
  exact List.nodup_cons.2 ⟨fresh, distinct⟩

mutual
theorem Enters.visit_eq {visited : List String} {selection : Selection}
    {result : Except Failure (List String)} :
    document.Enters visited selection result → document.visit visited selection.spreads = result
  | .undefined undefined => by rw [Selection.spreads, visit_undefined undefined]
  | .known defined known => by rw [Selection.spreads, visit_known defined known, visit_nil]
  | .fresh defined fresh inside => by
      rw [Selection.spreads, visit_fresh defined fresh, List.append_nil]
      exact inside.visit_eq
  | .field inside => inside.visit_eq
  | .inline inside => inside.visit_eq

theorem Collects.visit_eq {visited : List String} {items : Selections}
    {result : Except Failure (List String)} :
    document.Collects visited items result →
      document.visit visited (Selections.spreads items) = result
  | .done => by rw [Selections.spreads, visit_nil]
  | .next first later => by
      rw [Selections.spreads, visit_append, first.visit_eq]
      exact later.visit_eq
  | .stopped first => by
      rw [Selections.spreads, visit_append, first.visit_eq]
      rfl
end

theorem length_unvisited_le (more : visited ⊆ names) :
    (document.unvisited names).length ≤ (document.unvisited visited).length := by
  rw [unvisited, unvisited, ← List.countP_eq_length_filter, ← List.countP_eq_length_filter]
  apply List.countP_mono_left
  intro name _ unseen
  simp only [Bool.not_eq_true', List.contains_eq_mem, decide_eq_false_iff_not] at unseen ⊢
  exact fun seen => unseen (more seen)

mutual
/-- The nested walk comes to an end: going into a fragment leaves fewer names to visit, and going
into a selection leaves a smaller one, with no more names to visit. -/
theorem enters_visit (document : Document) (visited : List String) :
    ∀ selection : Selection,
      document.Enters visited selection (document.visit visited selection.spreads)
  | .field head span items => .field (collects_visit document visited items)
  | .inline pos condition directives span items => .inline (collects_visit document visited items)
  | .spread pos name directives => by
      rw [Selection.spreads]
      cases defined : document.fragment? name with
      | none =>
          rw [visit_undefined defined]
          exact .undefined defined
      | some fragment =>
          by_cases known : name ∈ visited
          · rw [visit_known defined known, visit_nil]
            exact .known defined known
          · rw [visit_fresh defined known, List.append_nil]
            have fewer := document.length_unvisited_lt defined known
            exact .fresh defined known (collects_visit document _ fragment.selectionSet.items)
termination_by selection => ((document.unvisited visited).length, sizeOf selection)

theorem collects_visit (document : Document) (visited : List String) :
    ∀ items : Selections,
      document.Collects visited items (document.visit visited (Selections.spreads items))
  | [] => by
      rw [Selections.spreads, visit_nil]
      exact .done
  | selection :: rest => by
      have first := enters_visit document visited selection
      rw [Selections.spreads, visit_append]
      cases walked : document.visit visited selection.spreads with
      | error failure => exact .stopped (walked ▸ first)
      | ok between =>
          have noMore := document.length_unvisited_le (subset_of_visit walked)
          exact .next (walked ▸ first) (collects_visit document between rest)
termination_by items => ((document.unvisited visited).length, sizeOf items)
decreasing_by
  · exact Prod.Lex.right _ (by rw [List.cons.sizeOf_spec]; omega)
  · exact Prod.Lex.right' _ noMore (by rw [List.cons.sizeOf_spec]; omega)
end

/-- The nested walk has one result, and the walk through the list of spread names finds it. -/
theorem collects_iff {items : Selections} {result : Except Failure (List String)} :
    document.Collects visited items result ↔
    document.visit visited (Selections.spreads items) = result := by
  constructor
  · exact Collects.visit_eq
  · rintro rfl
    exact collects_visit document visited items

/-! ## What the walk finds -/

/-- A walk that succeeds has found what is needed, all of which is defined. -/
theorem needs_of_reachable (walked : document.reachable set = .ok names) :
    (∀ name, name ∈ names ↔ document.Needs set name) ∧
      ∀ name, document.Needs set name → name ∈ document.fragments.map Fragment.name := by
  have ⟨found, defined⟩ := mem_iff_of_visit walked
  constructor
  · intro name
    rw [found, needs_iff_reaches]
  · intro name needed
    by_contra undefined
    exact defined name (needs_iff_reaches.1 needed) (fragment?_eq_none_iff.2 undefined)

/-- The walk has the result of the nested walk. It finds what the set needs, each name once, if the
document defines all of it, and else it fails with a name that is needed and not defined. -/
theorem reachable_needs (document : Document) (set : SelectionSet) :
    (∀ result, document.Collects [] set.items result ↔ document.reachable set = result) ∧
    ((∀ name, document.Needs set name → name ∈ document.fragments.map Fragment.name) →
      ∃ names, document.reachable set = .ok names ∧ names.Nodup ∧
        ∀ name, name ∈ names ↔ document.Needs set name) ∧
    (¬(∀ name, document.Needs set name → name ∈ document.fragments.map Fragment.name) →
      ∃ name, document.reachable set = .error (.missingFragment name) ∧
        document.Needs set name ∧ name ∉ document.fragments.map Fragment.name) := by
  refine ⟨fun result => collects_iff, ?_⟩
  cases walked : document.reachable set with
  | ok names =>
      have ⟨found, defined⟩ := needs_of_reachable walked
      have distinct := nodup_of_visit List.nodup_nil walked
      exact ⟨fun _ => ⟨names, rfl, distinct, found⟩, fun missing => absurd defined missing⟩
  | error failure =>
      rcases visit_eq_error walked with ⟨name, rfl, reached, undefined⟩
      have needed := needs_iff_reaches.2 reached
      have absent := fragment?_eq_none_iff.1 undefined
      exact ⟨fun all => absurd (all name needed) absent, fun _ => ⟨name, rfl, needed, absent⟩⟩

/-- Two fragments that spread one another and themselves, below a field and an inline fragment; a
later definition of the first one spreads an undefined name. -/
theorem reachable_needs_of_cycle :
    let field (items : Selections) : Selection :=
      .field ⟨.nowhere, none, "x", [], []⟩ .nowhere items
    let spread (name : String) : Selection := .spread .nowhere name []
    let fragment (name : String) (items : Selections) : Fragment :=
      ⟨.nowhere, name, "T", [], .nowhere, items⟩
    let set : SelectionSet := ⟨.nowhere, [field [.inline .nowhere none [] .nowhere [spread "a"]]]⟩
    let document : Document := ⟨[.fragment (fragment "a" [field [spread "b"], spread "a"]),
      .fragment (fragment "b" [spread "a"]), .fragment (fragment "a" [spread "c"])]⟩
    (∀ name, document.Needs set name → name ∈ document.fragments.map Fragment.name) ∧
    document.reachable set = .ok ["b", "a"] ∧
    ∀ name, name ∈ ["b", "a"] ↔ document.Needs set name := by
  intro field spread fragment set document
  have walked : document.reachable set = .ok ["b", "a"] := by cbv
  have defined := (needs_of_reachable walked).2
  rcases (reachable_needs document set).2.1 defined with ⟨names, alsoWalked, _, found⟩
  cases walked.symm.trans alsoWalked
  exact ⟨defined, walked, found⟩

end Document

end PersistedDocuments.GraphQL
