import PersistedDocuments.Proofs.GraphQL.Rewording
import PersistedDocuments.Proofs.GraphQL.WellFormed
import PersistedDocuments.Proofs.Outcome
import PersistedDocuments.Proofs.Reduction
import PersistedDocuments.Typename

/-!
# What the printer writes of a document

The printer writes everything but the variables of subscriptions without a name. The document that
it shows is the one without them; it is printed in the same way. Documents that are printed come
from texts, and stay within the rules of the grammar when type names are added, when they are
reduced, and when their strings are changed.
-/

namespace PersistedDocuments.GraphQL

/-! ## Variables that are not written -/

/-- A subscription without a name, whose variables the printer leaves out. -/
def OperationHeader.HidesVariables (header : OperationHeader) : Prop :=
  header.kind = .subscription ∧ header.name = none ∧ header.variableDefinitions ≠ []

/-- The header as far as the printer writes it. -/
def OperationHeader.written (header : OperationHeader) : OperationHeader :=
  if header.kind = .subscription ∧ header.name = none then { header with variableDefinitions := [] }
  else header

def Operation.written (operation : Operation) : Operation :=
  ⟨operation.header.map OperationHeader.written, operation.selectionSet⟩

def Definition.written : Definition → Definition
  | .operation op => .operation op.written
  | .fragment fr => .fragment fr

/-- The document without the variables of its subscriptions without a name. -/
def Document.written (document : Document) : Document :=
  ⟨document.definitions.map Definition.written⟩

/-- Some variables of the document are not written. -/
def Document.HidesVariables (document : Document) : Prop :=
  ∃ operation ∈ document.operations, ∃ header, operation.header = some header ∧
    header.HidesVariables

namespace OperationHeader

variable (header : OperationHeader)

theorem written_of_silent {header : OperationHeader}
    (silent : header.kind = .subscription ∧ header.name = none) :
    header.written = { header with variableDefinitions := [] } := if_pos silent

theorem written_of_not_silent {header : OperationHeader}
    (audible : ¬(header.kind = .subscription ∧ header.name = none)) : header.written = header :=
  if_neg audible

theorem written_eq_self : header.written = header ↔ ¬header.HidesVariables := by
  rcases header with ⟨pos, kind, name, variableDefinitions, directives⟩
  by_cases silent : kind = .subscription ∧ name = none
  · simp [written, HidesVariables, silent, eq_comm]
  · rw [written, if_neg silent]
    exact ⟨fun _ hides => silent ⟨hides.1, hides.2.1⟩, fun _ => rfl⟩

theorem not_hidesVariables_written : ¬header.written.HidesVariables := by
  by_cases silent : header.kind = .subscription ∧ header.name = none
  · rw [written_of_silent silent]
    exact fun hides => hides.2.2 rfl
  · rw [written_of_not_silent silent]
    exact fun hides => silent ⟨hides.1, hides.2.1⟩

theorem chars_written : header.written.chars = header.chars := by
  by_cases silent : header.kind = .subscription ∧ header.name = none
  · simp [written_of_silent silent, chars, variablesChars, silent.1, silent.2]
  · rw [written_of_not_silent silent]

theorem written_mapStrings (change : Nat → String → String) :
    (header.mapStrings change).written = header.written.mapStrings change := by
  by_cases silent : header.kind = .subscription ∧ header.name = none
  · rw [written_of_silent silent]
    exact written_of_silent silent
  · rw [written_of_not_silent silent]
    exact written_of_not_silent silent

theorem written_erase : header.erase.written = header.written.erase := by
  by_cases silent : header.kind = .subscription ∧ header.name = none
  · rw [written_of_silent silent]
    exact written_of_silent silent
  · rw [written_of_not_silent silent]
    exact written_of_not_silent silent

theorem hidesVariables_erase : header.erase.HidesVariables ↔ header.HidesVariables := by
  simp [HidesVariables, erase]

end OperationHeader

namespace Definition

theorem chars_comp_written : Definition.chars ∘ written = Definition.chars := by
  funext definition
  cases definition with
  | operation op =>
      rcases op with ⟨header, set⟩
      cases header with
      | none => rfl
      | some header =>
          simp only [Function.comp_apply, written, Definition.chars, Operation.chars,
            Operation.written, Option.map_some, OperationHeader.chars_written]
  | fragment fr => rfl

theorem written_comp_mapStrings (change : Nat → String → String) :
    written ∘ Definition.mapStrings change = Definition.mapStrings change ∘ written := by
  funext definition
  cases definition with
  | operation op =>
      rcases op with ⟨header, set⟩
      cases header with
      | none => rfl
      | some header =>
          simp only [Function.comp_apply, written, Definition.mapStrings, Operation.mapStrings,
            Operation.written, Option.map_some, OperationHeader.written_mapStrings]
  | fragment fr => rfl

theorem written_comp_erase : written ∘ Definition.erase = Definition.erase ∘ written := by
  funext definition
  cases definition with
  | operation op =>
      rcases op with ⟨header, set⟩
      cases header with
      | none => rfl
      | some header =>
          simp only [Function.comp_apply, written, Definition.erase, Operation.erase,
            Operation.written, Option.map_some, OperationHeader.written_erase]
  | fragment fr => rfl

end Definition

namespace Document

variable (document : Document)

/-- What is not written does not change what is. -/
theorem chars_written : document.written.chars = document.chars := by
  simp only [Document.chars, written, List.map_map, Definition.chars_comp_written]

theorem written_mapStrings (change : Nat → String → String) :
    (document.mapStrings change).written = document.written.mapStrings change := by
  simp only [written, Document.mapStrings, List.map_map, Definition.written_comp_mapStrings]

theorem written_erase : document.erase.written = document.written.erase := by
  simp only [written, Document.erase, List.map_map, Definition.written_comp_erase]

theorem mem_operations {operation : Operation} :
    operation ∈ document.operations ↔ .operation operation ∈ document.definitions := by
  rw [operations, List.mem_filterMap]
  constructor
  · rintro ⟨definition, present, same⟩
    cases definition with
    | operation op => cases same; exact present
    | fragment fr => cases same
  · exact fun present => ⟨_, present, rfl⟩

theorem written_eq_self : document.written = document ↔ ¬document.HidesVariables := by
  have each (definition : Definition) : definition.written = definition ↔
      ∀ operation, definition = .operation operation → ∀ header, operation.header = some header →
        ¬header.HidesVariables := by
    cases definition with
    | operation op =>
        rcases op with ⟨header, set⟩
        cases header <;>
          simp [Definition.written, Operation.written, OperationHeader.written_eq_self]
    | fragment fr => simp [Definition.written]
  have whole : document.written = document ↔
      ∀ definition ∈ document.definitions, definition.written = definition := by
    rw [← List.map_eq_map_iff (g := fun definition => definition), List.map_id']
    exact ⟨congrArg definitions, congrArg Document.mk⟩
  rw [whole]
  constructor
  · rintro all ⟨operation, present, header, same, hides⟩
    exact (each _).1 (all _ ((mem_operations document).1 present)) operation rfl header same hides
  · intro none definition present
    refine (each definition).2 fun operation same header found hides => none ?_
    exact ⟨operation, (mem_operations document).2 (same ▸ present), header, found, hides⟩

theorem hidesVariables_erase : document.erase.HidesVariables ↔ document.HidesVariables := by
  constructor
  · rintro ⟨operation, present, header, same, hides⟩
    obtain ⟨definition, kept, sameDefinition⟩ :=
      List.mem_map.1 ((mem_operations document.erase).1 present)
    cases definition with
    | fragment fr => cases sameDefinition
    | operation op =>
        cases sameDefinition
        rcases Option.map_eq_some_iff.1 same with ⟨original, found, rfl⟩
        exact ⟨op, (mem_operations document).2 kept, original, found,
          original.hidesVariables_erase.1 hides⟩
  · rintro ⟨operation, present, header, same, hides⟩
    refine ⟨operation.erase, (mem_operations document.erase).2 ?_, header.erase, ?_,
      header.hidesVariables_erase.2 hides⟩
    · exact List.mem_map_of_mem ((mem_operations document).1 present)
    · rw [Operation.erase, same]
      rfl

/-- The document is written whole exactly if it hides no variables. -/
theorem erase_written_eq_erase : document.written.erase = document.erase ↔
    ¬document.HidesVariables := by
  rw [← written_erase, written_eq_self, hidesVariables_erase]

theorem not_hidesVariables_written : ¬document.written.HidesVariables := by
  rintro ⟨operation, present, header, same, hides⟩
  obtain ⟨definition, _, sameDefinition⟩ :=
    List.mem_map.1 ((mem_operations document.written).1 present)
  cases definition with
  | fragment fr => cases sameDefinition
  | operation op =>
      cases sameDefinition
      rcases Option.map_eq_some_iff.1 same with ⟨original, _, rfl⟩
      exact original.not_hidesVariables_written hides

end Document

/-! ## Rules that are kept when strings change -/

section Strings

variable {change : String → String} {changeAt : Nat → String → String}

theorem Values.mapStrings_eq_map (values : Values) :
    Values.mapStrings change values = values.map (Value.mapStrings change) := by
  induction values with
  | nil => rfl
  | cons value rest ih => rw [Values.mapStrings, ih, List.map_cons]

theorem Members.mapStrings_eq_map (members : Members) :
    Members.mapStrings change members =
      members.map fun member => (member.1, member.2.mapStrings change) := by
  induction members with
  | nil => rfl
  | cons member rest ih => rw [Members.mapStrings, ih, List.map_cons]

theorem Selections.mapStrings_eq_map (indent : Nat) (items : Selections) :
    Selections.mapStrings changeAt indent items =
      items.map (Selection.mapStrings changeAt indent) := by
  induction items with
  | nil => rfl
  | cons item rest ih => rw [Selections.mapStrings, ih, List.map_cons]

theorem Value.Fits.mapStrings {dynamic : Bool} {depth : Nat} {value : Value}
    (fits : value.Fits dynamic depth) : (value.mapStrings change).Fits dynamic depth := by
  induction fits with
  | reference allowed isName => exact .reference allowed isName
  | int inRange => exact .int inRange
  | float => exact .float
  | string => exact .string
  | boolean => exact .boolean
  | null => exact .null
  | enum isName plain => exact .enum isName plain
  | list _ ih =>
      rw [Value.mapStrings, Values.mapStrings_eq_map]
      exact .list (List.forall_mem_map.2 ih)
  | object sorted names _ ih =>
      rw [Value.mapStrings, Members.mapStrings_eq_map]
      exact .object (List.pairwise_map.2 sorted) (List.forall_mem_map.2 names)
        (List.forall_mem_map.2 ih)

theorem Members.FitArguments.mapStrings {depth : Nat} {arguments : Members}
    (fit : FitArguments depth arguments) :
    FitArguments depth (Members.mapStrings change arguments) := by
  rw [Members.mapStrings_eq_map]
  exact List.forall_mem_map.2 fun argument present =>
    have ⟨isName, room, fits⟩ := fit argument present
    ⟨isName, room, fits.mapStrings⟩

theorem Directive.Fits.mapStrings {depth : Nat} {directive : Directive}
    (fits : directive.Fits depth) : (directive.mapStrings change).Fits depth :=
  ⟨fits.name, fits.arguments.mapStrings⟩

theorem Variable.Fits.mapStrings {depth : Nat} {var : Variable} (fits : var.Fits depth) :
    (var.mapStrings change).Fits depth := by
  refine ⟨fits.name, fits.type, fun value same => ?_⟩
  rcases Option.map_eq_some_iff.1 same with ⟨original, found, rfl⟩
  exact (fits.default original found).mapStrings

theorem FieldHead.Fits.mapStrings {depth : Nat} {head : FieldHead} (fits : head.Fits depth) :
    (head.mapStrings change).Fits depth :=
  ⟨fits.aliasName, fits.name, fits.arguments.mapStrings,
    List.forall_mem_map.2 fun directive present => (fits.directives directive present).mapStrings⟩

theorem Selection.Fits.mapStrings {depth : Nat} {selection : Selection}
    (fits : selection.Fits depth) (indent : Nat) :
    (selection.mapStrings changeAt indent).Fits depth := by
  induction fits generalizing indent with
  | leaf fits => exact .leaf fits.mapStrings
  | field fits nonempty _ ih =>
      rw [Selection.mapStrings, Selections.mapStrings_eq_map]
      exact .field fits.mapStrings (mt List.map_eq_nil_iff.1 nonempty)
        (List.forall_mem_map.2 fun item present => ih item present _)
  | spread isName notOn marks =>
      exact .spread isName notOn
        (List.forall_mem_map.2 fun directive present => (marks directive present).mapStrings)
  | inline names marks nonempty _ ih =>
      rw [Selection.mapStrings, Selections.mapStrings_eq_map]
      exact .inline names
        (List.forall_mem_map.2 fun directive present => (marks directive present).mapStrings)
        (mt List.map_eq_nil_iff.1 nonempty)
        (List.forall_mem_map.2 fun item present => ih item present _)

theorem SelectionSet.Fits.mapStrings {depth : Nat} {set : SelectionSet} (fits : set.Fits depth) :
    (set.mapStrings changeAt).Fits depth := by
  rw [SelectionSet.mapStrings, Selections.mapStrings_eq_map]
  exact ⟨mt List.map_eq_nil_iff.1 fits.nonempty, fits.room,
    List.forall_mem_map.2 fun item present => (fits.each item present).mapStrings _⟩

theorem OperationHeader.Fits.mapStrings {header : OperationHeader} (fits : header.Fits) :
    (header.mapStrings changeAt).Fits :=
  ⟨fits.name,
    List.forall_mem_map.2 fun var present => (fits.variableDefinitions var present).mapStrings,
    List.forall_mem_map.2 fun directive present => (fits.directives directive present).mapStrings⟩

theorem Definition.Fits.mapStrings {definition : Definition} (fits : definition.Fits) :
    (definition.mapStrings changeAt).Fits := by
  cases definition with
  | operation op =>
      constructor
      · intro header same
        rcases Option.map_eq_some_iff.1 same with ⟨original, found, rfl⟩
        exact (fits.header original found).mapStrings
      · exact fits.selectionSet.mapStrings
  | fragment fr =>
      exact ⟨fits.name, fits.typeCondition,
        List.forall_mem_map.2 fun directive present =>
          (fits.directives directive present).mapStrings,
        fits.selectionSet.mapStrings⟩

theorem Document.Fits.mapStrings {document : Document} (fits : document.Fits) :
    (document.mapStrings changeAt).Fits :=
  ⟨mt List.map_eq_nil_iff.1 fits.nonempty,
    List.forall_mem_map.2 fun definition present => (fits.each definition present).mapStrings⟩

end Strings

/-! ## Rules that are kept on the way to a key -/

theorem Document.Fits.written {document : Document} (fits : document.Fits) :
    document.written.Fits := by
  refine ⟨mt List.map_eq_nil_iff.1 fits.nonempty, List.forall_mem_map.2 ?_⟩
  intro definition present
  have given := fits.each definition present
  cases definition with
  | fragment fr => exact given
  | operation op =>
      constructor
      · intro header same
        rcases Option.map_eq_some_iff.1 same with ⟨original, found, rfl⟩
        have originalFits := given.header original found
        rw [OperationHeader.written]
        split
        · exact ⟨originalFits.name, fun _ absent => (nomatch absent), originalFits.directives⟩
        · exact originalFits
      · exact given.selectionSet

theorem isName_typenameField : IsName typenameField := by decide

theorem Selection.fits_typename (depth : Nat) (pos : Pos) :
    (Selection.typename pos).Fits depth :=
  .leaf ⟨fun _ absent => (nomatch absent), isName_typenameField,
    fun _ absent => (nomatch absent), fun _ absent => (nomatch absent)⟩

theorem Selections.fits_missingTypename {depth : Nat} {span : Span} {items : Selections} :
    ∀ item ∈ Selections.missingTypename span items, item.Fits depth := by
  intro item present
  rw [Selections.missingTypename] at present
  split at present
  · cases present
  · cases List.mem_singleton.1 present
    exact Selection.fits_typename depth _

theorem Selections.addTypename_eq_map (items : Selections) :
    Selections.addTypename items = items.map Selection.addTypename := by
  induction items with
  | nil => rfl
  | cons item rest ih => rw [Selections.addTypename, ih, List.map_cons]

theorem Selection.Fits.addTypename {depth : Nat} {selection : Selection}
    (fits : selection.Fits depth) : selection.addTypename.Fits depth := by
  induction fits with
  | leaf fits => exact .leaf fits
  | field fits nonempty _ ih =>
      rw [Selection.addTypename, Selections.addTypename_eq_map]
      refine .field fits (by simp [nonempty]) fun item present => ?_
      rcases List.mem_append.1 present with old | new
      · exact List.forall_mem_map.2 ih item old
      · exact Selections.fits_missingTypename item new
  | spread isName notOn marks => exact .spread isName notOn marks
  | inline names marks nonempty _ ih =>
      rw [Selection.addTypename, Selections.addTypename_eq_map]
      refine .inline names marks (by simp [nonempty]) fun item present => ?_
      rcases List.mem_append.1 present with old | new
      · exact List.forall_mem_map.2 ih item old
      · exact Selections.fits_missingTypename item new

theorem SelectionSet.Fits.addTypename {depth : Nat} {set : SelectionSet} (fits : set.Fits depth) :
    set.addTypename.Fits depth := by
  rw [SelectionSet.addTypename, Selections.addTypename_eq_map]
  exact ⟨mt List.map_eq_nil_iff.1 fits.nonempty, fits.room,
    List.forall_mem_map.2 fun item present => (fits.each item present).addTypename⟩

theorem Document.Fits.addTypename {document : Document} (fits : document.Fits) :
    document.addTypename.Fits := by
  refine ⟨mt List.map_eq_nil_iff.1 fits.nonempty, List.forall_mem_map.2 ?_⟩
  intro definition present
  have given := fits.each definition present
  cases definition with
  | operation op => exact ⟨given.header, given.selectionSet.addTypename⟩
  | fragment fr =>
      exact ⟨given.name, given.typeCondition, given.directives, given.selectionSet.addTypename⟩

/-- A reduction consists of definitions of the document, the operation among them. -/
theorem Document.mem_of_mem_reduce {document reduced : Document} {operation : Operation}
    (present : operation ∈ document.operations) (reduces : document.reduce operation = .ok reduced)
    {definition : Definition} (kept : definition ∈ reduced.definitions) :
    definition ∈ document.definitions := by
  rw [reduce_eq, map_eq_ok] at reduces
  rcases reduces with ⟨names, _, rfl⟩
  rcases List.mem_cons.1 kept with rfl | fragment
  · exact (mem_operations document).1 present
  · rcases List.mem_map.1 (List.mem_mergeSort.1 fragment) with ⟨fr, keptFragment, rfl⟩
    have ⟨defined, _⟩ := document.fragment?_eq_some (mem_kept.1 keptFragment).2
    rcases List.mem_filterMap.1 defined with ⟨definition, present, same⟩
    cases definition with
    | operation op => cases same
    | fragment fr => cases same; exact present

theorem Document.Fits.reduce {document reduced : Document} {operation : Operation}
    (fits : document.Fits) (present : operation ∈ document.operations)
    (reduces : document.reduce operation = .ok reduced) : reduced.Fits := by
  refine ⟨?_, fun definition kept => fits.each definition (mem_of_mem_reduce present reduces kept)⟩
  rw [reduce_eq, map_eq_ok] at reduces
  rcases reduces with ⟨names, _, rfl⟩
  exact List.cons_ne_nil _ _

/-- Documents that come from texts, in which type names may have been added and which may have been
reduced to one of their operations. -/
inductive Document.Derived : Document → Prop
  | parsed {text : String} {document : Document} (parsed : Document.parse text = .ok document) :
      Derived document
  | addTypename {document : Document} (derived : Derived document) : Derived document.addTypename
  | reduced {document reduced : Document} {operation : Operation} (derived : Derived document)
      (present : operation ∈ document.operations)
      (reduces : document.reduce operation = .ok reduced) : Derived reduced

end PersistedDocuments.GraphQL
