import PersistedDocuments.Proofs.Reduction
import PersistedDocuments.Typename

/-!
# Changes made definition by definition

A `Rewriting` changes every definition on its own, keeps the names of fragments and keeps the spread
names of every definition in their order. Reduction commutes with it: the walk takes the same way
before and after the change, so the same definitions are kept. Completing selection sets by
`__typename` is such a change.
-/

namespace PersistedDocuments

open GraphQL

/-- A change of operations and a change of fragments that keep what a reduction looks at. -/
structure Rewriting where
  operation : Operation → Operation
  fragment : Fragment → Fragment
  spreads_operation : ∀ op, (operation op).selectionSet.spreads = op.selectionSet.spreads
  name_fragment : ∀ fr, (fragment fr).name = fr.name
  spreads_fragment : ∀ fr, (fragment fr).selectionSet.spreads = fr.selectionSet.spreads

namespace Rewriting

variable (rewriting : Rewriting) (document : Document)

/-- Operations stay operations and fragments stay fragments. -/
def definition : Definition → Definition
  | .operation op => .operation (rewriting.operation op)
  | .fragment fr => .fragment (rewriting.fragment fr)

/-- The change made to every definition of a document. -/
def run : Document := ⟨document.definitions.map rewriting.definition⟩

/-- The change that leaves everything as it is. -/
protected def id : Rewriting where
  operation := fun op => op
  fragment := fun fr => fr
  spreads_operation := fun _ => rfl
  name_fragment := fun _ => rfl
  spreads_fragment := fun _ => rfl

/-- One change after another. -/
def andThen (first second : Rewriting) : Rewriting where
  operation := fun op => second.operation (first.operation op)
  fragment := fun fr => second.fragment (first.fragment fr)
  spreads_operation := fun op =>
    (second.spreads_operation _).trans (first.spreads_operation op)
  name_fragment := fun fr => (second.name_fragment _).trans (first.name_fragment fr)
  spreads_fragment := fun fr => (second.spreads_fragment _).trans (first.spreads_fragment fr)

@[simp] theorem run_id : Rewriting.id.run document = document := by
  have unchanged : Rewriting.id.definition = id := by
    funext definition
    cases definition <;> rfl
  rw [Rewriting.run, unchanged, List.map_id]

@[simp] theorem run_andThen (first second : Rewriting) :
    (first.andThen second).run document = second.run (first.run document) := by
  have composed : (first.andThen second).definition = second.definition ∘ first.definition := by
    funext definition
    cases definition <;> rfl
  rw [Rewriting.run, Rewriting.run, Rewriting.run, List.map_map, composed]

@[simp] theorem operations_run :
    (rewriting.run document).operations = document.operations.map rewriting.operation := by
  rw [Document.operations, Rewriting.run, List.filterMap_map, Document.operations,
    List.map_filterMap]
  congr 1
  funext definition
  cases definition <;> rfl

@[simp] theorem fragments_run :
    (rewriting.run document).fragments = document.fragments.map rewriting.fragment := by
  rw [Document.fragments, Rewriting.run, List.filterMap_map, Document.fragments,
    List.map_filterMap]
  congr 1
  funext definition
  cases definition <;> rfl

theorem fragment?_run (name : String) :
    (rewriting.run document).fragment? name =
      (document.fragment? name).map rewriting.fragment := by
  rw [Document.fragment?, fragments_run, List.find?_map, Document.fragment?]
  congr 2
  funext fragment
  simp [rewriting.name_fragment]

/-- The walk takes the same way before and after the change. -/
theorem reachable_run (operation : Operation) :
    (rewriting.run document).reachable (rewriting.operation operation).selectionSet =
      document.reachable operation.selectionSet := by
  rw [Document.reachable, Document.reachable, rewriting.spreads_operation]
  apply Document.visit_congr
  intro name _
  rw [fragment?_run, Option.map_map]
  congr 1
  funext fragment
  exact rewriting.spreads_fragment fragment

theorem kept_run (names : List String) :
    (rewriting.run document).kept names =
      (document.kept names).map rewriting.fragment := by
  rw [Document.kept, fragments_run, List.filter_map, Document.kept,
    ← Fragment.firsts_map rewriting.name_fragment]
  congr 3
  funext fragment
  simp [rewriting.name_fragment]

/-- Reducing a changed document gives the changed reduction. -/
theorem reduce_run (operation : Operation) :
    (rewriting.run document).reduce (rewriting.operation operation) =
      (document.reduce operation).map rewriting.run := by
  rw [Document.reduce_eq, Document.reduce_eq, reachable_run]
  cases document.reachable operation.selectionSet with
  | error failure => rfl
  | ok names =>
      have sameOrder (a b : Definition) :
          a.precedes b = (rewriting.definition a).precedes (rewriting.definition b) := by
        cases a <;> cases b <;>
          simp [Definition.precedes, Definition.compare, definition, rewriting.name_fragment]
      have sorted := List.map_mergeSort (l := (document.kept names).map Definition.fragment)
        fun a _ b _ => sameOrder a b
      rw [List.map_map] at sorted
      simp only [Except.map, kept_run, List.map_map]
      rw [Rewriting.run, List.map_cons, sorted]
      rfl

theorem reduce_run_of_reduce {document reduced : Document} {operation : Operation}
    (reduces : document.reduce operation = .ok reduced) :
    (rewriting.run document).reduce (rewriting.operation operation) =
      .ok (rewriting.run reduced) := by
  rw [reduce_run, reduces]
  rfl

end Rewriting

/-! ## Transformers of this kind -/

/-- A transformer that never fails and changes every definition on its own. -/
def Transformer.IsRewriting (transformer : Transformer) : Prop :=
  ∃ rewriting : Rewriting, ∀ document, transformer.run document = .ok (rewriting.run document)

/-- A pipeline of such transformers is one change of this kind. -/
theorem Pipeline.exists_rewriting {pipeline : Pipeline}
    (rewritings : ∀ transformer ∈ pipeline, transformer.IsRewriting) :
    ∃ rewriting : Rewriting, ∀ document, pipeline.run document = .ok (rewriting.run document)
    := by
  induction pipeline with
  | nil => exact ⟨.id, fun document => by rw [Rewriting.run_id]; rfl⟩
  | cons transformer rest ih =>
      rcases rewritings transformer (List.mem_cons_self ..) with ⟨first, firstRun⟩
      obtain ⟨second, secondRun⟩ := ih fun other present =>
        rewritings other (List.mem_cons_of_mem _ present)
      refine ⟨first.andThen second, fun document => ?_⟩
      rw [Rewriting.run_andThen, ← secondRun, Pipeline.run, List.foldlM_cons, firstRun]
      rfl

namespace GraphQL

theorem Selections.spreads_append (left right : Selections) :
    Selections.spreads (left ++ right) = Selections.spreads left ++ Selections.spreads right := by
  induction left with
  | nil => rfl
  | cons selection rest ih => rw [List.cons_append, spreads, spreads, ih, List.append_assoc]

theorem Selections.spreads_missingTypename (span : Span) (items : Selections) :
    Selections.spreads (missingTypename span items) = [] := by
  rw [missingTypename]
  split <;> rfl

mutual
theorem Selection.spreads_addTypename (selection : Selection) :
    selection.addTypename.spreads = selection.spreads := by
  cases selection with
  | field head span items =>
      rw [Selection.addTypename, Selection.spreads, Selections.spreads_append,
        Selections.spreads_missingTypename, List.append_nil, Selections.spreads_addTypename items,
        Selection.spreads]
  | spread pos name directives => rfl
  | inline pos condition directives span items =>
      rw [Selection.addTypename, Selection.spreads, Selections.spreads_append,
        Selections.spreads_missingTypename, List.append_nil, Selections.spreads_addTypename items,
        Selection.spreads]

theorem Selections.spreads_addTypename (items : Selections) :
    (Selections.addTypename items).spreads = Selections.spreads items := by
  cases items with
  | nil => rfl
  | cons selection rest =>
      rw [Selections.addTypename, Selections.spreads, Selection.spreads_addTypename selection,
        Selections.spreads_addTypename rest, Selections.spreads]
end

end GraphQL

/-- Adding type names to operations and fragments. -/
def Rewriting.addTypename : Rewriting where
  operation := fun op => { op with selectionSet := op.selectionSet.addTypename }
  fragment := fun fr => { fr with selectionSet := fr.selectionSet.addTypename }
  spreads_operation := fun op => Selections.spreads_addTypename op.selectionSet.items
  name_fragment := fun _ => rfl
  spreads_fragment := fun fr => Selections.spreads_addTypename fr.selectionSet.items

theorem Rewriting.run_addTypename (document : Document) :
    Rewriting.addTypename.run document = document.addTypename := by
  have same : Rewriting.addTypename.definition = Definition.addTypename := by
    funext definition
    cases definition <;> rfl
  rw [Rewriting.run, same, Document.addTypename]

/-- Adding type names changes every definition on its own. -/
theorem Transformer.isRewriting_addTypename : Transformer.addTypename.IsRewriting :=
  ⟨.addTypename, fun document => by rw [Rewriting.run_addTypename]; rfl⟩

/-- Pipelines of type names are one change of this kind. -/
theorem Pipeline.exists_rewriting_replicate (n : Nat) :
    ∃ rewriting : Rewriting, ∀ document,
      run (List.replicate n .addTypename) document = .ok (rewriting.run document) := by
  apply exists_rewriting
  intro transformer present
  rw [List.eq_of_mem_replicate present]
  exact Transformer.isRewriting_addTypename

end PersistedDocuments
