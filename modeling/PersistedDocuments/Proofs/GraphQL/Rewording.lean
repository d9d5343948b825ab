import PersistedDocuments.Proofs.GraphQL.Words

/-!
# Documents with other strings

Changing the strings of a document changes its words one by one, keeps its places, and keeps its
printed form if each string is printed as before.
-/

namespace PersistedDocuments.GraphQL

section Words

variable (change : Nat → String → String)

theorem map_parenWords (words : List Word) :
    (parenWords words).map (Word.mapString change) =
      parenWords (words.map (Word.mapString change)) := by
  cases words with
  | nil => rfl
  | cons first rest => simp [parenWords, Word.mapString]

theorem map_braceWords (words : List Word) :
    (braceWords words).map (Word.mapString change) =
      braceWords (words.map (Word.mapString change)) := by
  simp [braceWords, Word.mapString]

mutual
theorem Value.words_mapStrings (indent : Nat) :
    ∀ value : Value, (value.mapStrings (change indent)).words indent =
      (value.words indent).map (Word.mapString change)
  | .variable _ => rfl
  | .int _ => rfl
  | .float _ => rfl
  | .string _ => rfl
  | .boolean true => rfl
  | .boolean false => rfl
  | .null => rfl
  | .enum _ => rfl
  | .list items => by
      simp [Value.mapStrings, Value.words, Word.mapString, Values.words_mapStrings indent items]
  | .object members => by
      simp [Value.mapStrings, Value.words, Word.mapString, Members.words_mapStrings indent members]

theorem Values.words_mapStrings (indent : Nat) :
    ∀ values : Values, Values.words indent (Values.mapStrings (change indent) values) =
      (Values.words indent values).map (Word.mapString change)
  | [] => rfl
  | value :: rest => by
      simp [Values.mapStrings, Values.words, Value.words_mapStrings indent value,
        Values.words_mapStrings indent rest]

theorem Members.words_mapStrings (indent : Nat) :
    ∀ members : Members, Members.words indent (Members.mapStrings (change indent) members) =
      (Members.words indent members).map (Word.mapString change)
  | [] => rfl
  | (name, value) :: rest => by
      simp [Members.mapStrings, Members.words, Word.mapString, Value.words_mapStrings indent value,
        Members.words_mapStrings indent rest]
end

theorem Ty.map_words (type : Ty) : type.words.map (Word.mapString change) = type.words := by
  induction type with
  | named name => rfl
  | list item ih => simp [Ty.words, Word.mapString, ih]
  | nonNull type ih => simp [Ty.words, Word.mapString, ih]

theorem Directive.words_mapStrings (indent : Nat) (directive : Directive) :
    (directive.mapStrings (change indent)).words indent =
      (directive.words indent).map (Word.mapString change) := by
  simp [Directive.words, Directive.mapStrings, Members.words_mapStrings, map_parenWords,
    Word.mapString]

theorem Directive.flatMap_words_mapStrings (indent : Nat) (directives : List Directive) :
    (directives.map (Directive.mapStrings (change indent))).flatMap (Directive.words indent) =
      (directives.flatMap (Directive.words indent)).map (Word.mapString change) := by
  simp only [List.flatMap_map, List.map_flatMap, Directive.words_mapStrings]

theorem Variable.words_mapStrings (var : Variable) :
    (var.mapStrings (change 0)).words = var.words.map (Word.mapString change) := by
  rcases var with ⟨pos, name, type, default⟩
  cases default with
  | none => simp [Variable.words, defaultWords, Variable.mapStrings, Ty.map_words, Word.mapString]
  | some value =>
      simp [Variable.words, defaultWords, Variable.mapStrings, Ty.map_words, Word.mapString,
        Value.words_mapStrings]

theorem FieldHead.words_mapStrings (indent : Nat) (head : FieldHead) :
    (head.mapStrings (change indent)).words indent =
      (head.words indent).map (Word.mapString change) := by
  rcases head with ⟨pos, aliasName, name, arguments, directives⟩
  cases aliasName <;>
    simp [FieldHead.words, aliasWords, FieldHead.mapStrings, Members.words_mapStrings,
      map_parenWords, Directive.flatMap_words_mapStrings, Word.mapString]

theorem Selections.isEmpty_mapStrings (indent : Nat) (items : Selections) :
    (Selections.mapStrings change indent items).isEmpty = items.isEmpty := by
  cases items <;> rfl

mutual
theorem Selection.words_mapStrings (indent : Nat) :
    ∀ selection : Selection, (selection.mapStrings change indent).words indent =
      (selection.words indent).map (Word.mapString change)
  | .field head span items => by
      simp only [Selection.mapStrings, Selection.words, FieldHead.words_mapStrings,
        Selections.isEmpty_mapStrings, Selections.words_mapStrings (indent + 2) items]
      split <;> simp [map_braceWords]
  | .spread pos name directives => by
      simp [Selection.mapStrings, Selection.words, Directive.flatMap_words_mapStrings,
        Word.mapString]
  | .inline pos condition directives span items => by
      simp only [Selection.mapStrings, Selection.words, Directive.flatMap_words_mapStrings,
        Selections.words_mapStrings (indent + 2) items]
      cases condition <;> simp [conditionWords, map_braceWords, Word.mapString]

theorem Selections.words_mapStrings (indent : Nat) :
    ∀ items : Selections, Selections.words indent (Selections.mapStrings change indent items) =
      (Selections.words indent items).map (Word.mapString change)
  | [] => rfl
  | selection :: rest => by
      simp [Selections.mapStrings, Selections.words, Selection.words_mapStrings indent selection,
        Selections.words_mapStrings indent rest]
end

theorem SelectionSet.words_mapStrings (set : SelectionSet) :
    (set.mapStrings change).words = set.words.map (Word.mapString change) := by
  simp [SelectionSet.words, SelectionSet.mapStrings, Selections.words_mapStrings, map_braceWords]

theorem OperationHeader.words_mapStrings (header : OperationHeader) :
    (header.mapStrings change).words = header.words.map (Word.mapString change) := by
  have vars : (header.variableDefinitions.map (Variable.mapStrings (change 0))).flatMap
      Variable.words =
      (header.variableDefinitions.flatMap Variable.words).map (Word.mapString change) := by
    simp only [List.flatMap_map, List.map_flatMap, Variable.words_mapStrings]
  rcases header with ⟨pos, kind, name, variableDefinitions, directives⟩
  cases name <;>
    simp_all [OperationHeader.words, nameWords, OperationHeader.mapStrings, map_parenWords,
      Directive.flatMap_words_mapStrings, Word.mapString]

theorem Definition.words_mapStrings (definition : Definition) :
    (definition.mapStrings change).words = definition.words.map (Word.mapString change) := by
  cases definition with
  | operation op =>
      rcases op with ⟨header, set⟩
      cases header <;>
        simp [Definition.mapStrings, Definition.words, Operation.words, Operation.mapStrings,
          OperationHeader.words_mapStrings, SelectionSet.words_mapStrings]
  | fragment fr =>
      simp [Definition.mapStrings, Definition.words, Fragment.words, Fragment.mapStrings,
        Directive.flatMap_words_mapStrings, SelectionSet.words_mapStrings, Word.mapString]

/-- The words of a document with other strings are its words with other strings. -/
theorem Document.words_mapStrings (document : Document) :
    (document.mapStrings change).words = document.words.map (Word.mapString change) := by
  simp only [Document.words, Document.mapStrings, List.flatMap_map, List.map_flatMap,
    Definition.words_mapStrings]

end Words

/-! ## Two changes after one another -/

section Composition

variable (first second : String → String)

mutual
theorem Value.mapStrings_mapStrings :
    ∀ value : Value, (value.mapStrings first).mapStrings second =
      value.mapStrings fun text => second (first text)
  | .variable _ => rfl
  | .int _ => rfl
  | .float _ => rfl
  | .string _ => rfl
  | .boolean _ => rfl
  | .null => rfl
  | .enum _ => rfl
  | .list items => by simp [Value.mapStrings, Values.mapStrings_mapStrings items]
  | .object members => by simp [Value.mapStrings, Members.mapStrings_mapStrings members]

theorem Values.mapStrings_mapStrings :
    ∀ values : Values, Values.mapStrings second (Values.mapStrings first values) =
      Values.mapStrings (fun text => second (first text)) values
  | [] => rfl
  | value :: rest => by
      simp [Values.mapStrings, Value.mapStrings_mapStrings value, Values.mapStrings_mapStrings rest]

theorem Members.mapStrings_mapStrings :
    ∀ members : Members, Members.mapStrings second (Members.mapStrings first members) =
      Members.mapStrings (fun text => second (first text)) members
  | [] => rfl
  | (name, value) :: rest => by
      simp [Members.mapStrings, Value.mapStrings_mapStrings value,
        Members.mapStrings_mapStrings rest]
end

theorem Directive.mapStrings_comp :
    Directive.mapStrings second ∘ Directive.mapStrings first =
      Directive.mapStrings fun text => second (first text) := by
  funext directive
  simp [Directive.mapStrings, Members.mapStrings_mapStrings]

theorem Value.mapStrings_comp :
    Value.mapStrings second ∘ Value.mapStrings first =
      Value.mapStrings fun text => second (first text) :=
  funext (Value.mapStrings_mapStrings first second)

theorem Variable.mapStrings_comp :
    Variable.mapStrings second ∘ Variable.mapStrings first =
      Variable.mapStrings fun text => second (first text) := by
  funext var
  simp [Variable.mapStrings, Value.mapStrings_comp]

theorem FieldHead.mapStrings_mapStrings (head : FieldHead) :
    (head.mapStrings first).mapStrings second =
      head.mapStrings fun text => second (first text) := by
  simp [FieldHead.mapStrings, Members.mapStrings_mapStrings, Directive.mapStrings_comp]

end Composition

section Composition

variable (first second : Nat → String → String)

mutual
theorem Selection.mapStrings_mapStrings (indent : Nat) :
    ∀ selection : Selection, (selection.mapStrings first indent).mapStrings second indent =
      selection.mapStrings (fun indent text => second indent (first indent text)) indent
  | .field head span items => by
      simp [Selection.mapStrings, FieldHead.mapStrings_mapStrings,
        Selections.mapStrings_mapStrings (indent + 2) items]
  | .spread pos name directives => by
      simp [Selection.mapStrings, Directive.mapStrings_comp]
  | .inline pos condition directives span items => by
      simp [Selection.mapStrings, Directive.mapStrings_comp,
        Selections.mapStrings_mapStrings (indent + 2) items]

theorem Selections.mapStrings_mapStrings (indent : Nat) :
    ∀ items : Selections,
      Selections.mapStrings second indent (Selections.mapStrings first indent items) =
        Selections.mapStrings (fun indent text => second indent (first indent text)) indent items
  | [] => rfl
  | selection :: rest => by
      simp [Selections.mapStrings, Selection.mapStrings_mapStrings indent selection,
        Selections.mapStrings_mapStrings indent rest]
end

theorem SelectionSet.mapStrings_mapStrings (set : SelectionSet) :
    (set.mapStrings first).mapStrings second =
      set.mapStrings fun indent text => second indent (first indent text) := by
  simp [SelectionSet.mapStrings, Selections.mapStrings_mapStrings]

theorem OperationHeader.mapStrings_comp :
    OperationHeader.mapStrings second ∘ OperationHeader.mapStrings first =
      OperationHeader.mapStrings fun indent text => second indent (first indent text) := by
  funext header
  simp [OperationHeader.mapStrings, Directive.mapStrings_comp, Variable.mapStrings_comp]

theorem Definition.mapStrings_comp :
    Definition.mapStrings second ∘ Definition.mapStrings first =
      Definition.mapStrings fun indent text => second indent (first indent text) := by
  funext definition
  cases definition with
  | operation op =>
      simp [Definition.mapStrings, Operation.mapStrings, OperationHeader.mapStrings_comp,
        SelectionSet.mapStrings_mapStrings]
  | fragment fr =>
      simp [Definition.mapStrings, Fragment.mapStrings, Directive.mapStrings_comp,
        SelectionSet.mapStrings_mapStrings]

/-- Two changes of the strings are one. -/
theorem Document.mapStrings_mapStrings (document : Document) :
    (document.mapStrings first).mapStrings second =
      document.mapStrings fun indent text => second indent (first indent text) := by
  simp [Document.mapStrings, Definition.mapStrings_comp]

end Composition

/-! ## Changes and places -/

section Places

variable (change : Nat → String → String)

theorem Directive.erase_comp_mapStrings (change : String → String) :
    Directive.erase ∘ Directive.mapStrings change =
      Directive.mapStrings change ∘ Directive.erase := rfl

theorem Variable.erase_comp_mapStrings (change : String → String) :
    Variable.erase ∘ Variable.mapStrings change = Variable.mapStrings change ∘ Variable.erase := rfl

theorem FieldHead.erase_mapStrings (change : String → String) (head : FieldHead) :
    (head.mapStrings change).erase = head.erase.mapStrings change := by
  simp [FieldHead.erase, FieldHead.mapStrings, Directive.erase_comp_mapStrings]

mutual
theorem Selection.erase_mapStrings (indent : Nat) :
    ∀ selection : Selection, (selection.mapStrings change indent).erase =
      selection.erase.mapStrings change indent
  | .field head span items => by
      simp [Selection.mapStrings, Selection.erase, FieldHead.erase_mapStrings,
        Selections.erase_mapStrings (indent + 2) items]
  | .spread pos name directives => by
      simp [Selection.mapStrings, Selection.erase, Directive.erase_comp_mapStrings]
  | .inline pos condition directives span items => by
      simp [Selection.mapStrings, Selection.erase, Directive.erase_comp_mapStrings,
        Selections.erase_mapStrings (indent + 2) items]

theorem Selections.erase_mapStrings (indent : Nat) :
    ∀ items : Selections, Selections.erase (Selections.mapStrings change indent items) =
      Selections.mapStrings change indent (Selections.erase items)
  | [] => rfl
  | selection :: rest => by
      simp [Selections.mapStrings, Selections.erase, Selection.erase_mapStrings indent selection,
        Selections.erase_mapStrings indent rest]
end

theorem SelectionSet.erase_mapStrings (set : SelectionSet) :
    (set.mapStrings change).erase = set.erase.mapStrings change := by
  simp [SelectionSet.erase, SelectionSet.mapStrings, Selections.erase_mapStrings]

theorem OperationHeader.erase_comp_mapStrings :
    OperationHeader.erase ∘ OperationHeader.mapStrings change =
      OperationHeader.mapStrings change ∘ OperationHeader.erase := by
  funext header
  simp [OperationHeader.erase, OperationHeader.mapStrings, Directive.erase_comp_mapStrings,
    Variable.erase_comp_mapStrings]

theorem Definition.erase_comp_mapStrings :
    Definition.erase ∘ Definition.mapStrings change =
      Definition.mapStrings change ∘ Definition.erase := by
  funext definition
  cases definition with
  | operation op =>
      simp [Definition.erase, Definition.mapStrings, Operation.erase, Operation.mapStrings,
        OperationHeader.erase_comp_mapStrings, SelectionSet.erase_mapStrings]
  | fragment fr =>
      simp [Definition.erase, Definition.mapStrings, Fragment.erase, Fragment.mapStrings,
        Directive.erase_comp_mapStrings, SelectionSet.erase_mapStrings]

/-- Strings and places are changed independently. -/
theorem Document.erase_mapStrings (document : Document) :
    (document.mapStrings change).erase = document.erase.mapStrings change := by
  simp [Document.erase, Document.mapStrings, Definition.erase_comp_mapStrings]

end Places

/-! ## Printed forms -/

theorem Fragment.chars_eq (fragment : Fragment) :
    fragment.chars =
      "fragment ".toList ++ fragment.name.toList ++ " on ".toList ++
        fragment.typeCondition.toList ++ directivesChars 0 fragment.directives ++
          ' ' :: fragment.selectionSet.chars := rfl

section Printing

set_option linter.unusedSectionVars false

variable {change : Nat → String → String}
variable (alike : ∀ indent text, stringChars indent (change indent text) = stringChars indent text)

include alike

mutual
theorem Value.chars_mapStrings (indent : Nat) :
    ∀ value : Value, (value.mapStrings (change indent)).chars indent = value.chars indent
  | .variable _ => rfl
  | .int _ => rfl
  | .float _ => rfl
  | .string text => alike indent text
  | .boolean true => rfl
  | .boolean false => rfl
  | .null => rfl
  | .enum _ => rfl
  | .list items => by simp [Value.mapStrings, Value.chars, Values.texts_mapStrings indent items]
  | .object members => by
      simp [Value.mapStrings, Value.chars, Members.texts_mapStrings indent members]

theorem Values.texts_mapStrings (indent : Nat) :
    ∀ values : Values, Values.texts indent (Values.mapStrings (change indent) values) =
      Values.texts indent values
  | [] => rfl
  | value :: rest => by
      simp [Values.mapStrings, Values.texts, Value.chars_mapStrings indent value,
        Values.texts_mapStrings indent rest]

theorem Members.texts_mapStrings (indent : Nat) :
    ∀ members : Members, Members.texts indent (Members.mapStrings (change indent) members) =
      Members.texts indent members
  | [] => rfl
  | (name, value) :: rest => by
      simp [Members.mapStrings, Members.texts, Value.chars_mapStrings indent value,
        Members.texts_mapStrings indent rest]
end

theorem Directive.chars_mapStrings (indent : Nat) (directives : List Directive) :
    directivesChars indent (directives.map (Directive.mapStrings (change indent))) =
      directivesChars indent directives := by
  simp only [directivesChars, List.flatMap_map, Directive.chars, Directive.mapStrings,
    Members.texts_mapStrings alike]

theorem Variable.chars_comp_mapStrings :
    Variable.chars ∘ Variable.mapStrings (change 0) = Variable.chars := by
  funext var
  rcases var with ⟨pos, name, type, default⟩
  cases default with
  | none => rfl
  | some value => simp [Variable.chars, Variable.mapStrings, Value.chars_mapStrings alike]

theorem FieldHead.chars_mapStrings (indent : Nat) (head : FieldHead) :
    (head.mapStrings (change indent)).chars indent = head.chars indent := by
  simp only [FieldHead.chars, FieldHead.mapStrings, Members.texts_mapStrings alike,
    Directive.chars_mapStrings alike]

mutual
theorem Selection.chars_mapStrings (indent : Nat) :
    ∀ selection : Selection,
      (selection.mapStrings change indent).chars indent = selection.chars indent
  | .field head span items => by
      simp only [Selection.mapStrings, Selection.chars, FieldHead.chars_mapStrings alike,
        Selections.isEmpty_mapStrings, Selections.chars_mapStrings (indent + 2) items]
  | .spread pos name directives => by
      simp only [Selection.mapStrings, Selection.chars, Directive.chars_mapStrings alike]
  | .inline pos condition directives span items => by
      simp only [Selection.mapStrings, Selection.chars, Directive.chars_mapStrings alike,
        Selections.chars_mapStrings (indent + 2) items]

theorem Selections.chars_mapStrings (indent : Nat) :
    ∀ items : Selections,
      Selections.chars indent (Selections.mapStrings change indent items) =
        Selections.chars indent items
  | [] => rfl
  | selection :: rest => by
      simp only [Selections.mapStrings, Selections.chars,
        Selection.chars_mapStrings indent selection, Selections.chars_mapStrings indent rest]
end

theorem OperationHeader.chars_mapStrings (header : OperationHeader) :
    (header.mapStrings change).chars = header.chars := by
  simp only [OperationHeader.chars, OperationHeader.variablesChars, OperationHeader.mapStrings,
    List.map_map, Variable.chars_comp_mapStrings alike, Directive.chars_mapStrings alike]

theorem Definition.chars_comp_mapStrings :
    Definition.chars ∘ Definition.mapStrings change = Definition.chars := by
  funext definition
  cases definition with
  | operation op =>
      rcases op with ⟨header, set⟩
      cases header <;>
        simp only [Function.comp_apply, Option.map_none, Option.map_some, Definition.chars,
          Definition.mapStrings, Operation.chars, Operation.mapStrings, SelectionSet.chars,
          SelectionSet.mapStrings, Selections.chars_mapStrings alike,
          OperationHeader.chars_mapStrings alike]
  | fragment fr =>
      simp only [Function.comp_apply, Definition.chars, Definition.mapStrings, Fragment.chars_eq,
        Fragment.mapStrings, SelectionSet.chars, SelectionSet.mapStrings,
        Selections.chars_mapStrings alike, Directive.chars_mapStrings alike]

/-- A change that no string shows leaves the printed form as it is. -/
theorem Document.chars_mapStrings (document : Document) :
    (document.mapStrings change).chars = document.chars := by
  simp only [Document.chars, Document.mapStrings, List.map_map,
    Definition.chars_comp_mapStrings alike]

end Printing

section Erasing

theorem Directive.chars_erase (indent : Nat) (directives : List Directive) :
    directivesChars indent (directives.map Directive.erase) =
      directivesChars indent directives := by
  simp only [directivesChars, List.flatMap_map, Directive.chars, Directive.erase]

theorem Variable.chars_comp_erase : Variable.chars ∘ Variable.erase = Variable.chars := rfl

theorem FieldHead.chars_erase (indent : Nat) (head : FieldHead) :
    head.erase.chars indent = head.chars indent := by
  simp only [FieldHead.chars, FieldHead.erase, Directive.chars_erase]

theorem Selections.isEmpty_erase (items : Selections) :
    (Selections.erase items).isEmpty = items.isEmpty := by
  cases items <;> rfl

mutual
theorem Selection.chars_erase (indent : Nat) :
    ∀ selection : Selection, selection.erase.chars indent = selection.chars indent
  | .field head span items => by
      simp only [Selection.erase, Selection.chars, FieldHead.chars_erase,
        Selections.isEmpty_erase, Selections.chars_erase (indent + 2) items]
  | .spread pos name directives => by
      simp only [Selection.erase, Selection.chars, Directive.chars_erase]
  | .inline pos condition directives span items => by
      simp only [Selection.erase, Selection.chars, Directive.chars_erase,
        Selections.chars_erase (indent + 2) items]

theorem Selections.chars_erase (indent : Nat) :
    ∀ items : Selections,
      Selections.chars indent (Selections.erase items) = Selections.chars indent items
  | [] => rfl
  | selection :: rest => by
      simp only [Selections.erase, Selections.chars, Selection.chars_erase indent selection,
        Selections.chars_erase indent rest]
end

theorem OperationHeader.chars_erase (header : OperationHeader) :
    header.erase.chars = header.chars := by
  simp only [OperationHeader.chars, OperationHeader.variablesChars, OperationHeader.erase,
    List.map_map, Variable.chars_comp_erase, Directive.chars_erase]

theorem Definition.chars_comp_erase : Definition.chars ∘ Definition.erase = Definition.chars := by
  funext definition
  cases definition with
  | operation op =>
      rcases op with ⟨header, set⟩
      cases header <;>
        simp only [Function.comp_apply, Option.map_none, Option.map_some, Definition.chars,
          Definition.erase, Operation.chars, Operation.erase, SelectionSet.chars,
          SelectionSet.erase, Selections.chars_erase, OperationHeader.chars_erase]
  | fragment fr =>
      simp only [Function.comp_apply, Definition.chars, Definition.erase, Fragment.chars_eq,
        Fragment.erase, SelectionSet.chars, SelectionSet.erase, Selections.chars_erase,
        Directive.chars_erase]

/-- The printed form shows no places. -/
theorem Document.chars_erase (document : Document) : document.erase.chars = document.chars := by
  simp only [Document.chars, Document.erase, List.map_map, Definition.chars_comp_erase]

end Erasing

end PersistedDocuments.GraphQL
