import Mathlib.Data.List.Forall2
import PersistedDocuments.Proofs.GraphQL.TypeNames

/-!
# Selection sets that ask for their type

Adding type names is the only change that leaves all definitions and selections as they are and puts
a plain field `__typename` behind the items of exactly those nested sets that select something but
do not ask for the type. Afterwards every nested set that selects something asks for the type, so
nothing is left to add.
-/

namespace PersistedDocuments.GraphQL

/-- One of the items themselves is a field whose name is `__typename`, under whatever alias. -/
def Selections.AskType (items : Selections) : Prop :=
  ∃ head span below, Selection.field head span below ∈ items ∧ head.name = "__typename"

/-- The additional items of a nested set: a plain field if the set selects something but does not
ask for the type, and nothing otherwise. -/
inductive Selections.Gains (span : Span) (items : Selections) : Selections → Prop
  | typename (selects : items ≠ []) (silent : ¬Selections.AskType items) :
      Gains span items
        [.field ⟨span.last, none, "__typename", [], []⟩ ⟨span.last, span.last⟩ []]
  | nothing (complete : items = [] ∨ Selections.AskType items) : Gains span items []

/-- The second selection is the first one with nothing changed but its nested sets, which have the
items that they had, completed in their turn, and what they gain behind them. -/
inductive Selection.Completed : Selection → Selection → Prop
  | field {head : FieldHead} {span : Span} {items kept added : Selections}
      (each : List.Forall₂ Selection.Completed items kept)
      (gains : Selections.Gains span items added) :
      Completed (.field head span items) (.field head span (kept ++ added))
  | spread {pos : Pos} {name : String} {directives : List Directive} :
      Completed (.spread pos name directives) (.spread pos name directives)
  | inline {pos : Pos} {condition : Option String} {directives : List Directive} {span : Span}
      {items kept added : Selections} (each : List.Forall₂ Selection.Completed items kept)
      (gains : Selections.Gains span items added) :
      Completed (.inline pos condition directives span items)
        (.inline pos condition directives span (kept ++ added))

/-- The second definition is the first one with completed items, as many as there were. -/
inductive Definition.Completed : Definition → Definition → Prop
  | operation {header : Option OperationHeader} {span : Span} {items kept : Selections}
      (each : List.Forall₂ Selection.Completed items kept) :
      Completed (.operation ⟨header, span, items⟩) (.operation ⟨header, span, kept⟩)
  | fragment {pos : Pos} {name condition : String} {directives : List Directive} {span : Span}
      {items kept : Selections} (each : List.Forall₂ Selection.Completed items kept) :
      Completed (.fragment ⟨pos, name, condition, directives, span, items⟩)
        (.fragment ⟨pos, name, condition, directives, span, kept⟩)

/-- The second list is the set of a field or an inline fragment somewhere below the items. -/
inductive Selections.Nest : Selections → Selections → Prop
  | field {items below : Selections} {head : FieldHead} {span : Span}
      (inside : Selection.field head span below ∈ items) : Nest items below
  | inline {items below : Selections} {pos : Pos} {condition : Option String}
      {directives : List Directive} {span : Span}
      (inside : Selection.inline pos condition directives span below ∈ items) : Nest items below
  | deeper {items between below : Selections} (outer : Nest items between)
      (inner : Nest between below) : Nest items below

/-! ## What is added -/

theorem Selections.any_isTypename_iff {items : Selections} :
    items.any Selection.isTypename = true ↔ items.AskType := by
  rw [List.any_eq_true]
  constructor
  · rintro ⟨selection, present, asks⟩
    cases selection with
    | field head span below => exact ⟨head, span, below, present, of_decide_eq_true asks⟩
    | spread => cases asks
    | inline => cases asks
  · rintro ⟨head, span, below, present, named⟩
    exact ⟨_, present, decide_eq_true named⟩

theorem Selections.missingTypename_of_complete (span : Span) {items : Selections}
    (complete : items = [] ∨ items.AskType) : missingTypename span items = [] := by
  rw [missingTypename]
  rcases complete with rfl | asks
  · rfl
  · rw [any_isTypename_iff.2 asks, Bool.or_true]
    rfl

theorem Selections.missingTypename_of_silent (span : Span) {items : Selections}
    (selects : items ≠ []) (silent : ¬items.AskType) :
    missingTypename span items = [.typename span.last] := by
  have notAsked : items.any Selection.isTypename = false := by
    rw [← Bool.not_eq_true, any_isTypename_iff]
    exact silent
  have notEmpty : items.isEmpty = false := by simpa using selects
  rw [missingTypename, notAsked, notEmpty]
  rfl

theorem Selections.gains_iff {span : Span} {items added : Selections} :
    Selections.Gains span items added ↔ added = missingTypename span items := by
  constructor
  · rintro (⟨selects, silent⟩ | complete)
    · exact (missingTypename_of_silent span selects silent).symm
    · exact (missingTypename_of_complete span complete).symm
  · rintro rfl
    by_cases complete : items = [] ∨ items.AskType
    · rw [missingTypename_of_complete span complete]
      exact .nothing complete
    · rw [not_or] at complete
      rw [missingTypename_of_silent span complete.1 complete.2]
      exact .typename complete.1 complete.2

/-! ## Completion is adding type names -/

mutual
theorem Selection.completed_iff :
    ∀ {before after : Selection}, before.Completed after ↔ after = before.addTypename
  | .field head span items, after => by
      rw [Selection.addTypename]
      constructor
      · rintro (⟨each, gains⟩ | _ | _)
        rw [Selections.forall₂_completed_iff.1 each, Selections.gains_iff.1 gains]
      · rintro rfl
        exact .field (Selections.forall₂_completed_iff.2 rfl) (Selections.gains_iff.2 rfl)
  | .spread pos name directives, after => by
      constructor
      · rintro ⟨⟩
        rfl
      · rintro rfl
        exact .spread
  | .inline pos condition directives span items, after => by
      rw [Selection.addTypename]
      constructor
      · rintro (_ | _ | ⟨each, gains⟩)
        rw [Selections.forall₂_completed_iff.1 each, Selections.gains_iff.1 gains]
      · rintro rfl
        exact .inline (Selections.forall₂_completed_iff.2 rfl) (Selections.gains_iff.2 rfl)

theorem Selections.forall₂_completed_iff :
    ∀ {items kept : Selections},
      List.Forall₂ Selection.Completed items kept ↔ kept = Selections.addTypename items
  | [], kept => by rw [List.forall₂_nil_left_iff, Selections.addTypename]
  | selection :: rest, kept => by
      rw [List.forall₂_cons_left_iff, Selections.addTypename]
      constructor
      · rintro ⟨completed, others, first, later, rfl⟩
        rw [Selection.completed_iff.1 first, Selections.forall₂_completed_iff.1 later]
      · rintro rfl
        exact ⟨_, _, Selection.completed_iff.2 rfl, Selections.forall₂_completed_iff.2 rfl, rfl⟩
end

theorem Definition.completed_iff {before after : Definition} :
    before.Completed after ↔ after = before.addTypename := by
  constructor
  · rintro (each | each)
    · rw [Selections.forall₂_completed_iff.1 each]
      rfl
    · rw [Selections.forall₂_completed_iff.1 each]
      rfl
  · rintro rfl
    cases before with
    | operation op => exact .operation (Selections.forall₂_completed_iff.2 rfl)
    | fragment fr => exact .fragment (Selections.forall₂_completed_iff.2 rfl)

theorem Document.completed_iff {before after : Document} :
    List.Forall₂ Definition.Completed before.definitions after.definitions ↔
      after = before.addTypename := by
  have asEquation : Definition.Completed = fun before after => before.addTypename = after := by
    funext before after
    exact propext (Definition.completed_iff.trans eq_comm)
  rw [asEquation, ← List.forall₂_map_left_iff, List.forall₂_eq_eq_eq, addTypename]
  cases after
  rw [mk.injEq, eq_comm]

/-! ## Nested sets -/

/-- The items are those of a nested set in which type names have been added. -/
def Selections.Finished (items : Selections) : Prop :=
  ∃ span original, items = addTypename original ++ missingTypename span original

theorem Selections.Finished.askType {items : Selections} (finished : Finished items)
    (selects : items ≠ []) : items.AskType := by
  rcases finished with ⟨span, original, rfl⟩
  by_contra silent
  have missing := missingTypename_of_silent span selects silent
  rw [missingTypename_completed] at missing
  cases missing

/-- A finished set is what becomes of a set that has the additional item from the beginning. -/
theorem Selections.Finished.exists_eq {items : Selections} (finished : Finished items) :
    ∃ original, items = addTypename original := by
  rcases finished with ⟨span, original, rfl⟩
  exact ⟨original ++ missingTypename span original,
    by rw [addTypename_append, addTypename_missingTypename]⟩

/-- Where type names have been added, all nested sets are finished. -/
theorem Selections.Nest.finished {items below : Selections} (nest : Nest items below)
    (added : ∃ original, items = addTypename original) : Finished below := by
  induction nest with
  | field inside =>
      rcases added with ⟨original, rfl⟩
      rw [addTypename_eq_map] at inside
      rcases List.mem_map.1 inside with ⟨selection, _, same⟩
      cases selection with
      | field head span items => cases same; exact ⟨_, items, rfl⟩
      | spread => cases same
      | inline => cases same
  | inline inside =>
      rcases added with ⟨original, rfl⟩
      rw [addTypename_eq_map] at inside
      rcases List.mem_map.1 inside with ⟨selection, _, same⟩
      cases selection with
      | field => cases same
      | spread => cases same
      | inline pos condition directives span items => cases same; exact ⟨_, items, rfl⟩
  | deeper _ _ outer inner => exact inner (outer added).exists_eq

end PersistedDocuments.GraphQL

namespace PersistedDocuments

open GraphQL

/-! ## The transformer -/

/-- Adding type names gives a document exactly if its definitions are those of the first one,
completed, and it gives one for every document. In this one every nested set that selects something
asks for the type, and adding type names again changes nothing. -/
theorem Transformer.addTypename_completes (document : Document) :
    (∀ result, Transformer.addTypename.run document = .ok result ↔
      List.Forall₂ Definition.Completed document.definitions result.definitions) ∧
    ∃ result, Transformer.addTypename.run document = .ok result ∧
      (∀ definition ∈ result.definitions, ∀ below : Selections,
        Selections.Nest definition.selectionSet.items below → below ≠ [] → below.AskType) ∧
      Transformer.addTypename.run result = .ok result := by
  refine ⟨fun result => ?_, document.addTypename, rfl, ?_, ?_⟩
  · rw [Document.completed_iff]
    exact ⟨fun ran => (Except.ok.inj ran).symm, fun same => congrArg Except.ok same.symm⟩
  · intro definition present below nest selects
    rcases List.mem_map.1 present with ⟨original, _, rfl⟩
    apply Selections.Finished.askType _ selects
    apply nest.finished
    cases original with
    | operation op => exact ⟨op.selectionSet.items, rfl⟩
    | fragment fr => exact ⟨fr.selectionSet.items, rfl⟩
  · have again : document.addTypename.addTypename = document.addTypename := by
      rw [Document.addTypename, Document.addTypename, List.map_map]
      congr 2
      funext definition
      exact definition.addTypename_addTypename
    exact congrArg Except.ok again

/-- An alias does not count: the set whose field `b` is called `__typename` gets the field, and the
set whose field `__typename` is called `kind` does not, nor do the leaf fields and the root. -/
theorem Transformer.addTypename_completes_of_alias :
    let field (aliasName : Option String) (name : String) (items : Selections) : Selection :=
      .field ⟨.nowhere, aliasName, name, [], []⟩ .nowhere items
    let before : Document := .ofOperation ⟨none, .nowhere, [
      field none "a" [field (some "__typename") "b" []],
      field none "c" [field (some "kind") "__typename" []]]⟩
    let after : Document := .ofOperation ⟨none, .nowhere, [
      field none "a" [field (some "__typename") "b" [], field none "__typename" []],
      field none "c" [field (some "kind") "__typename" []]]⟩
    List.Forall₂ Definition.Completed before.definitions after.definitions ∧
      Transformer.addTypename.run after = .ok after := by
  intro field before after
  have ⟨completed, result, ran, _, again⟩ := Transformer.addTypename_completes before
  have expected : Transformer.addTypename.run before = .ok after := rfl
  cases ran.symm.trans expected
  exact ⟨(completed after).1 expected, again⟩

end PersistedDocuments
