import PersistedDocuments.Proofs.CanonicalOrder
import PersistedDocuments.Proofs.GraphQL.Written

/-!
# Type names in printed documents

Adding type names looks at the names of fields only. It can therefore change places with forgetting
positions, with changing strings and with leaving out what is not written, it does nothing when it
is done again, and it brings no word but `__typename` into a document. Sorting the definitions looks
at the names of fragments only, so it can change places with the same operations.
-/

namespace PersistedDocuments.GraphQL

variable {change : Nat → String → String}

/-! ## Places and strings -/

theorem Selections.any_isTypename_erase (items : Selections) :
    (Selections.erase items).any Selection.isTypename = items.any Selection.isTypename := by
  induction items with
  | nil => rfl
  | cons selection rest ih =>
      rw [erase, List.any_cons, List.any_cons, ih]
      cases selection <;> rfl

theorem Selections.any_isTypename_mapStrings (indent : Nat) (items : Selections) :
    (Selections.mapStrings change indent items).any Selection.isTypename =
      items.any Selection.isTypename := by
  induction items with
  | nil => rfl
  | cons selection rest ih =>
      rw [mapStrings, List.any_cons, List.any_cons, ih]
      cases selection <;> rfl

theorem Selections.erase_missingTypename (span : Span) (items : Selections) :
    Selections.erase (missingTypename span items) = missingTypename .nowhere (erase items) := by
  rw [missingTypename, missingTypename, isEmpty_erase, any_isTypename_erase]
  split <;> rfl

theorem Selections.mapStrings_missingTypename (indent : Nat) (span : Span) (items : Selections) :
    Selections.mapStrings change indent (missingTypename span items) =
      missingTypename span (mapStrings change indent items) := by
  rw [missingTypename, missingTypename, isEmpty_mapStrings, any_isTypename_mapStrings]
  split <;> rfl

theorem Selections.erase_append (left right : Selections) :
    Selections.erase (left ++ right) = erase left ++ erase right := by
  induction left with
  | nil => rfl
  | cons selection rest ih => rw [List.cons_append, erase, erase, ih, List.cons_append]

theorem Selections.mapStrings_append (indent : Nat) (left right : Selections) :
    Selections.mapStrings change indent (left ++ right) =
      mapStrings change indent left ++ mapStrings change indent right := by
  rw [mapStrings_eq_map, mapStrings_eq_map, mapStrings_eq_map, List.map_append]

mutual
theorem Selection.erase_addTypename :
    ∀ selection : Selection, selection.addTypename.erase = selection.erase.addTypename
  | .field head span items => by
      rw [Selection.addTypename, Selection.erase, Selections.erase_append,
        Selections.erase_addTypename items, Selections.erase_missingTypename, Selection.erase,
        Selection.addTypename]
  | .spread pos name directives => rfl
  | .inline pos condition directives span items => by
      rw [Selection.addTypename, Selection.erase, Selections.erase_append,
        Selections.erase_addTypename items, Selections.erase_missingTypename, Selection.erase,
        Selection.addTypename]

theorem Selections.erase_addTypename :
    ∀ items : Selections, Selections.erase (Selections.addTypename items) =
      Selections.addTypename (Selections.erase items)
  | [] => rfl
  | selection :: rest => by
      rw [Selections.addTypename, Selections.erase, Selection.erase_addTypename selection,
        Selections.erase_addTypename rest, Selections.erase, Selections.addTypename]
end

mutual
theorem Selection.mapStrings_addTypename (indent : Nat) :
    ∀ selection : Selection, selection.addTypename.mapStrings change indent =
      (selection.mapStrings change indent).addTypename
  | .field head span items => by
      rw [Selection.addTypename, Selection.mapStrings, Selections.mapStrings_append,
        Selections.mapStrings_addTypename (indent + 2) items,
        Selections.mapStrings_missingTypename, Selection.mapStrings, Selection.addTypename]
  | .spread pos name directives => rfl
  | .inline pos condition directives span items => by
      rw [Selection.addTypename, Selection.mapStrings, Selections.mapStrings_append,
        Selections.mapStrings_addTypename (indent + 2) items,
        Selections.mapStrings_missingTypename, Selection.mapStrings, Selection.addTypename]

theorem Selections.mapStrings_addTypename (indent : Nat) :
    ∀ items : Selections, Selections.mapStrings change indent (Selections.addTypename items) =
      Selections.addTypename (Selections.mapStrings change indent items)
  | [] => rfl
  | selection :: rest => by
      rw [Selections.addTypename, Selections.mapStrings,
        Selection.mapStrings_addTypename indent selection,
        Selections.mapStrings_addTypename indent rest, Selections.mapStrings,
        Selections.addTypename]
end

/-! ## Adding twice -/

theorem Selections.any_isTypename_addTypename (items : Selections) :
    (Selections.addTypename items).any Selection.isTypename = items.any Selection.isTypename := by
  induction items with
  | nil => rfl
  | cons selection rest ih =>
      rw [addTypename, List.any_cons, List.any_cons, ih]
      cases selection <;> rfl

theorem Selections.addTypename_missingTypename (span : Span) (items : Selections) :
    Selections.addTypename (missingTypename span items) = missingTypename span items := by
  rw [missingTypename]
  split <;> rfl

/-- Nothing is missing where type names have been added. -/
theorem Selections.missingTypename_completed (span : Span) (items : Selections) :
    missingTypename span (addTypename items ++ missingTypename span items) = [] := by
  cases items with
  | nil => rfl
  | cons selection rest =>
      have asks : (addTypename (selection :: rest) ++
          missingTypename span (selection :: rest)).any Selection.isTypename = true := by
        rw [List.any_append, any_isTypename_addTypename, missingTypename]
        cases asked : List.any (selection :: rest) Selection.isTypename with
        | true => rfl
        | false => rfl
      rw [missingTypename, asks, Bool.or_true]
      rfl

theorem Selections.addTypename_append (left right : Selections) :
    Selections.addTypename (left ++ right) = addTypename left ++ addTypename right := by
  rw [addTypename_eq_map, addTypename_eq_map, addTypename_eq_map, List.map_append]

mutual
theorem Selection.addTypename_addTypename :
    ∀ selection : Selection, selection.addTypename.addTypename = selection.addTypename
  | .field head span items => by
      rw [Selection.addTypename, Selection.addTypename, Selections.missingTypename_completed,
        List.append_nil, Selections.addTypename_append, Selections.addTypename_addTypename items,
        Selections.addTypename_missingTypename]
  | .spread _ _ _ => rfl
  | .inline pos condition directives span items => by
      rw [Selection.addTypename, Selection.addTypename, Selections.missingTypename_completed,
        List.append_nil, Selections.addTypename_append, Selections.addTypename_addTypename items,
        Selections.addTypename_missingTypename]

theorem Selections.addTypename_addTypename :
    ∀ items : Selections, Selections.addTypename (Selections.addTypename items) =
      Selections.addTypename items
  | [] => rfl
  | selection :: rest => by
      rw [Selections.addTypename, Selections.addTypename,
        Selection.addTypename_addTypename selection, Selections.addTypename_addTypename rest]
end

theorem Definition.addTypename_addTypename (definition : Definition) :
    definition.addTypename.addTypename = definition.addTypename := by
  cases definition with
  | operation op =>
      simp [Definition.addTypename, SelectionSet.addTypename, Selections.addTypename_addTypename]
  | fragment fr =>
      simp [Definition.addTypename, SelectionSet.addTypename, Selections.addTypename_addTypename]

/-! ## Words -/

@[simp] theorem mem_braceWords {word : Word} {words : List Word} :
    word ∈ braceWords words ↔
      word = .symbol .openBrace ∨ word ∈ words ∨ word = .symbol .closeBrace := by
  simp [braceWords]

theorem Selections.words_append (indent : Nat) (left right : Selections) :
    Selections.words indent (left ++ right) =
      Selections.words indent left ++ Selections.words indent right := by
  rw [words_eq_flatMap, List.flatMap_append, words_eq_flatMap, words_eq_flatMap]

theorem Selections.isEmpty_completed (span : Span) (items : Selections) :
    (addTypename items ++ missingTypename span items).isEmpty = items.isEmpty := by
  cases items <;> rfl

theorem Selections.not_mem_words_missingTypename {word : Word}
    (other : word ≠ .name typenameField) (indent : Nat) (span : Span) (items : Selections) :
    word ∉ Selections.words indent (missingTypename span items) := by
  rw [missingTypename]
  split
  · exact List.not_mem_nil
  · simpa [Selections.words, Selection.words, Selection.typename, FieldHead.words, aliasWords,
      Members.words, parenWords] using other

mutual
/-- Adding type names brings no other word. -/
theorem Selection.mem_words_addTypename {word : Word} (other : word ≠ .name typenameField)
    (indent : Nat) :
    ∀ selection : Selection, word ∈ selection.addTypename.words indent ↔
      word ∈ selection.words indent
  | .field head span items => by
      rw [Selection.addTypename, Selection.words, Selection.words, Selections.isEmpty_completed]
      split
      · rfl
      · simp [Selections.words_append, Selections.mem_words_addTypename other (indent + 2) items,
          Selections.not_mem_words_missingTypename other]
  | .spread pos name directives => Iff.rfl
  | .inline pos condition directives span items => by
      simp [Selection.addTypename, Selection.words, Selections.words_append,
        Selections.mem_words_addTypename other (indent + 2) items,
        Selections.not_mem_words_missingTypename other]

theorem Selections.mem_words_addTypename {word : Word} (other : word ≠ .name typenameField)
    (indent : Nat) :
    ∀ items : Selections, word ∈ Selections.words indent (Selections.addTypename items) ↔
      word ∈ Selections.words indent items
  | [] => Iff.rfl
  | selection :: rest => by
      simp [Selections.addTypename, Selections.words,
        Selection.mem_words_addTypename other indent selection,
        Selections.mem_words_addTypename other indent rest]
end

theorem Definition.mem_words_addTypename {word : Word} (other : word ≠ .name typenameField)
    (definition : Definition) : word ∈ definition.addTypename.words ↔ word ∈ definition.words := by
  cases definition with
  | operation op =>
      simp [Definition.addTypename, Definition.words, Operation.words, SelectionSet.words,
        SelectionSet.addTypename, Selections.mem_words_addTypename other]
  | fragment fr =>
      simp [Definition.addTypename, Definition.words, Fragment.words, SelectionSet.words,
        SelectionSet.addTypename, Selections.mem_words_addTypename other]

theorem Document.mem_words_addTypename {word : Word} (other : word ≠ .name typenameField)
    (document : Document) : word ∈ document.addTypename.words ↔ word ∈ document.words := by
  simp [Document.addTypename, Document.words, List.mem_flatMap,
    Definition.mem_words_addTypename other]

/-! ## Documents -/

theorem Definition.erase_comp_addTypename :
    Definition.erase ∘ Definition.addTypename = Definition.addTypename ∘ Definition.erase := by
  funext definition
  cases definition with
  | operation op =>
      simp [Definition.erase, Definition.addTypename, Operation.erase, SelectionSet.erase,
        SelectionSet.addTypename, Selections.erase_addTypename]
  | fragment fr =>
      simp [Definition.erase, Definition.addTypename, Fragment.erase, SelectionSet.erase,
        SelectionSet.addTypename, Selections.erase_addTypename]

theorem Definition.mapStrings_comp_addTypename :
    Definition.mapStrings change ∘ Definition.addTypename =
      Definition.addTypename ∘ Definition.mapStrings change := by
  funext definition
  cases definition with
  | operation op =>
      simp [Definition.mapStrings, Definition.addTypename, Operation.mapStrings,
        SelectionSet.mapStrings, SelectionSet.addTypename, Selections.mapStrings_addTypename]
  | fragment fr =>
      simp [Definition.mapStrings, Definition.addTypename, Fragment.mapStrings,
        SelectionSet.mapStrings, SelectionSet.addTypename, Selections.mapStrings_addTypename]

theorem Definition.written_comp_addTypename :
    Definition.written ∘ Definition.addTypename = Definition.addTypename ∘ Definition.written := by
  funext definition
  cases definition <;> rfl

namespace Document

variable (document : Document)

theorem erase_addTypename : document.addTypename.erase = document.erase.addTypename := by
  simp [erase, addTypename, Definition.erase_comp_addTypename]

theorem mapStrings_addTypename :
    document.addTypename.mapStrings change = (document.mapStrings change).addTypename := by
  simp [mapStrings, addTypename, Definition.mapStrings_comp_addTypename]

theorem written_addTypename : document.addTypename.written = document.written.addTypename := by
  simp [written, addTypename, Definition.written_comp_addTypename]

/-! ## Canonical order -/

theorem sorted_erase : document.erase.sorted = document.sorted.erase :=
  document.sorted_map fun left right => by cases left <;> cases right <;> rfl

theorem sorted_mapStrings :
    (document.mapStrings change).sorted = document.sorted.mapStrings change :=
  document.sorted_map fun left right => by cases left <;> cases right <;> rfl

theorem sorted_written : document.written.sorted = document.sorted.written :=
  document.sorted_map fun left right => by cases left <;> cases right <;> rfl

theorem mem_words_sorted {word : Word} : word ∈ document.sorted.words ↔ word ∈ document.words := by
  simp [words, sorted, List.mem_mergeSort]

theorem Fits.sorted {document : Document} (fits : document.Fits) : document.sorted.Fits := by
  refine ⟨?_, fun definition present => fits.each definition (List.mem_mergeSort.1 present)⟩
  intro empty
  apply fits.nonempty
  rw [← List.length_eq_zero_iff, ← List.length_mergeSort]
  exact List.length_eq_zero_iff.2 empty

end Document

end PersistedDocuments.GraphQL
