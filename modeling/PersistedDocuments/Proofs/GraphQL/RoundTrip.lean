import PersistedDocuments.Proofs.GraphQL.Places
import PersistedDocuments.Proofs.GraphQL.Soundness
import PersistedDocuments.Proofs.GraphQL.Spelling
import PersistedDocuments.Proofs.GraphQL.TypeNames

/-!
# Printing and reading

Every document without floats that a text can stand for is read again when it is printed: what is
read is the document as far as it is written, with every string as it reads. Two such documents are
printed alike exactly if they differ in strings that are printed alike only.
-/

namespace PersistedDocuments.GraphQL

/-- No value anywhere in the document is a float. -/
def Document.FloatFree (document : Document) : Prop := ∀ x, .float x ∉ document.words

instance (document : Document) : Decidable document.FloatFree :=
  decidable_of_iff _ Word.forall_isFloat_iff

/-! ## The words of documents that texts can stand for -/

/-- All words but floats are found as the printer writes them. -/
def Sound (words : List Word) : Prop := ∀ word ∈ words, (∀ x, word ≠ .float x) → word.Legible

@[simp] theorem sound_nil : Sound [] := fun _ absent => (nomatch absent)

@[simp] theorem sound_cons {word : Word} {words : List Word} :
    Sound (word :: words) ↔ ((∀ x, word ≠ .float x) → word.Legible) ∧ Sound words :=
  List.forall_mem_cons

@[simp] theorem sound_append {left right : List Word} :
    Sound (left ++ right) ↔ Sound left ∧ Sound right := List.forall_mem_append

theorem sound_flatMap {α : Type} {items : List α} {words : α → List Word}
    (each : ∀ item ∈ items, Sound (words item)) : Sound (items.flatMap words) := by
  intro word present
  rcases List.mem_flatMap.1 present with ⟨item, among, present⟩
  exact each item among word present

theorem sound_parenWords {words : List Word} (sound : Sound words) : Sound (parenWords words) := by
  rw [parenWords]
  split
  · exact sound_nil
  · simp [sound]

theorem sound_braceWords {words : List Word} (sound : Sound words) : Sound (braceWords words) := by
  simp [braceWords, sound]

theorem isName_true : IsName "true" := by decide

theorem isName_false : IsName "false" := by decide

theorem isName_null : IsName "null" := by decide

theorem isName_on : IsName "on" := by decide

theorem isName_fragment : IsName "fragment" := by decide

theorem isName_keyword (kind : OperationKind) : IsName kind.keyword := by
  cases kind <;> decide

theorem Value.Fits.sound_words {dynamic : Bool} {depth : Nat} {value : Value}
    (fits : value.Fits dynamic depth) (indent : Nat) : Sound (value.words indent) := by
  induction fits with
  | reference allowed isName => simp [Value.words, isName]
  | int inRange => simp [Value.words, inRange]
  | float => simp [Value.words]
  | string => simp [Value.words]
  | @boolean depth b =>
      cases b
      · simp [Value.words, isName_false]
      · simp [Value.words, isName_true]
  | null => simp [Value.words, isName_null]
  | enum isName plain => simp [Value.words, isName]
  | list _ ih =>
      rw [Value.words, Values.words_eq_flatMap]
      simp [sound_flatMap ih]
  | @object depth members sorted names _ ih =>
      have inner : Sound (members.flatMap (memberWords indent)) := by
        apply sound_flatMap
        intro member present
        simp [memberWords, names member present, ih member present]
      rw [Value.words, Members.words_eq_flatMap]
      simp [inner]

theorem Members.FitArguments.sound_words {depth : Nat} {arguments : Members}
    (fit : FitArguments depth arguments) (indent : Nat) :
    Sound (parenWords (Members.words indent arguments)) := by
  rw [Members.words_eq_flatMap]
  refine sound_parenWords (sound_flatMap fun argument present => ?_)
  have ⟨isName, _, fits⟩ := fit argument present
  simp [memberWords, isName, fits.sound_words indent]

theorem Ty.Fits.sound_words {depth : Nat} {type : Ty} (fits : type.Fits depth) :
    Sound type.words := by
  induction fits with
  | named isName => simp [Ty.words, isName]
  | list _ ih => simp [Ty.words, ih]
  | nonNull _ _ ih => simp [Ty.words, ih]

theorem Directive.sound_words {depth : Nat} {directives : List Directive}
    (fit : ∀ directive ∈ directives, directive.Fits depth) (indent : Nat) :
    Sound (directives.flatMap (Directive.words indent)) :=
  sound_flatMap fun directive present => by
    have fits := fit directive present
    simp [Directive.words, fits.name, fits.arguments.sound_words indent]

theorem Variable.Fits.sound_words {depth : Nat} {var : Variable} (fits : var.Fits depth) :
    Sound var.words := by
  rcases var with ⟨pos, name, type, default⟩
  cases default with
  | none => simp [Variable.words, defaultWords, fits.name, fits.type.sound_words]
  | some value =>
      have value := (fits.default _ rfl).sound_words 0
      simp [Variable.words, defaultWords, fits.name, fits.type.sound_words, value]

theorem FieldHead.Fits.sound_words {depth : Nat} {head : FieldHead} (fits : head.Fits depth)
    (indent : Nat) : Sound (head.words indent) := by
  have arguments := fits.arguments.sound_words indent
  have directives := Directive.sound_words fits.directives indent
  rcases head with ⟨pos, label, name, given, marks⟩
  cases label with
  | none => simp [FieldHead.words, aliasWords, fits.name, arguments, directives]
  | some label =>
      simp [FieldHead.words, aliasWords, fits.aliasName label rfl, fits.name, arguments, directives]

theorem Selection.Fits.sound_words {depth : Nat} {selection : Selection}
    (fits : selection.Fits depth) (indent : Nat) : Sound (selection.words indent) := by
  induction fits generalizing indent with
  | leaf fits => simp [Selection.words, fits.sound_words indent]
  | field fits nonempty _ ih =>
      rw [Selection.words, Selections.words_eq_flatMap]
      have below := sound_flatMap fun item present => ih item present (indent + 2)
      have inner := sound_braceWords below
      simp [fits.sound_words indent, nonempty, inner]
  | spread isName _ marks =>
      simp [Selection.words, isName, Directive.sound_words marks indent]
  | @inline depth pos condition directives span items names marks _ _ ih =>
      rw [Selection.words, Selections.words_eq_flatMap]
      have below := sound_flatMap fun item present => ih item present (indent + 2)
      have inner := sound_braceWords below
      have condition : Sound (conditionWords condition) := by
        cases condition with
        | none => exact sound_nil
        | some name => simp [conditionWords, isName_on, names name rfl]
      simp [condition, Directive.sound_words marks indent, inner]

theorem SelectionSet.Fits.sound_words {depth : Nat} {set : SelectionSet} (fits : set.Fits depth) :
    Sound set.words := by
  rw [SelectionSet.words, Selections.words_eq_flatMap]
  exact sound_braceWords (sound_flatMap fun item present => (fits.each item present).sound_words 2)

theorem OperationHeader.Fits.sound_words {header : OperationHeader} (fits : header.Fits) :
    Sound header.words := by
  have name : Sound (nameWords header.name) := by
    cases same : header.name with
    | none => exact sound_nil
    | some name => simp [nameWords, fits.name name same]
  have definitions := sound_parenWords
    (sound_flatMap fun var present => (fits.variableDefinitions var present).sound_words)
  simp [OperationHeader.words, isName_keyword, name, definitions,
    Directive.sound_words fits.directives 0]

theorem Definition.Fits.sound_words {definition : Definition} (fits : definition.Fits) :
    Sound definition.words := by
  cases definition with
  | operation op =>
      rcases op with ⟨header, set⟩
      have inner := fits.selectionSet.sound_words
      cases header with
      | none => simpa [Definition.words, Operation.words] using inner
      | some header =>
          simpa [Definition.words, Operation.words, inner] using (fits.header _ rfl).sound_words
  | fragment fr =>
      simp [Definition.words, Fragment.words, isName_fragment, isName_on, fits.name,
        fits.typeCondition, Directive.sound_words fits.directives 0, fits.selectionSet.sound_words]

theorem Document.Fits.legible {document : Document} (fits : document.Fits)
    (floatFree : document.FloatFree) : ∀ word ∈ document.words, word.Legible := by
  intro word present
  have each := sound_flatMap fun definition among => (fits.each definition among).sound_words
  apply each word present
  rintro x rfl
  exact floatFree x present

/-! ## No floats are added -/

theorem mem_parenWords {word : Word} {words : List Word} (present : word ∈ parenWords []) :
    word ∈ parenWords words := by cases present

theorem OperationHeader.mem_words_written {header : OperationHeader} {word : Word}
    (present : word ∈ header.written.words) : word ∈ header.words := by
  rw [written] at present
  split at present
  · simp only [words, List.flatMap_nil, List.mem_append, List.mem_cons] at present ⊢
    rcases present with (old | absent) | mark
    · exact .inl (.inl old)
    · exact .inl (.inr (mem_parenWords absent))
    · exact .inr mark
  · exact present

theorem Document.mem_words_written {document : Document} {word : Word}
    (present : word ∈ document.written.words) : word ∈ document.words := by
  rcases List.mem_flatMap.1 present with ⟨_, among, present⟩
  rcases List.mem_map.1 among with ⟨definition, original, rfl⟩
  refine List.mem_flatMap.2 ⟨definition, original, ?_⟩
  cases definition with
  | fragment fr => exact present
  | operation op =>
      rcases op with ⟨header, set⟩
      cases header with
      | none => exact present
      | some header =>
          have apart := List.mem_append.1 present
          exact List.mem_append.2 (apart.imp_left OperationHeader.mem_words_written)

theorem Document.FloatFree.written {document : Document} (floatFree : document.FloatFree) :
    document.written.FloatFree := by
  intro x present
  exact floatFree x (mem_words_written present)

theorem Document.FloatFree.reduce {document reduced : Document} {operation : Operation}
    (floatFree : document.FloatFree) (present : operation ∈ document.operations)
    (reduces : document.reduce operation = .ok reduced) : reduced.FloatFree := by
  intro x float
  rcases List.mem_flatMap.1 float with ⟨definition, kept, float⟩
  exact floatFree x (List.mem_flatMap.2 ⟨definition, mem_of_mem_reduce present reduces kept, float⟩)

theorem Document.FloatFree.addTypename {document : Document} (floatFree : document.FloatFree) :
    document.addTypename.FloatFree := by
  intro x float
  exact floatFree x ((mem_words_addTypename (by simp) document).1 float)

/-- Documents that come from texts obey the rules of the grammar. -/
theorem Document.Derived.fits {document : Document} (derived : document.Derived) :
    document.Fits := by
  induction derived with
  | parsed parsed => exact fits_of_parse parsed
  | addTypename _ ih => exact ih.addTypename
  | reduced _ present reduces ih => exact ih.reduce present reduces

/-! ## Reading a printed document -/

/-- A word is found as it means, with its string as it reads, unless this is torn. -/
theorem Word.tears_seen (word : Word) : ((word.mapString rereadString).token).Tears word.seen := by
  cases word with
  | string indent text =>
      rw [mapString, token, rereadString, seen, stringToken]
      cases rereadString? indent text with
      | some found => exact .whole _
      | none => exact .torn _
  | symbol _ | name _ | int _ | float _ => exact .whole _

theorem torn_mem_seen {words : List Word} :
    .torn ∈ words.map Word.seen ↔
      ∃ indent text, .string indent text ∈ words ∧ rereadString? indent text = none := by
  rw [List.mem_map]
  constructor
  · rintro ⟨word, present, same⟩
    cases word with
    | string indent text =>
        refine ⟨indent, text, present, ?_⟩
        rw [Word.seen, stringToken] at same
        cases read : rereadString? indent text with
        | none => rfl
        | some found =>
            rw [read] at same
            cases same
    | symbol _ | name _ | int _ | float _ => cases same
  · rintro ⟨indent, text, present, torn⟩
    refine ⟨_, present, ?_⟩
    rw [Word.seen, stringToken, torn]

/-- A printed document is read as the document that is written, its strings as they read. If one of
them is torn, the reader breaks down. -/
theorem Document.Fits.parse_print_cases {document : Document} (fits : document.Fits)
    (floatFree : document.FloatFree) :
    (.torn ∉ document.written.words.map Word.seen ∧
      ∃ found, Document.parse document.print = .ok found ∧
        found.erase = (document.written.mapStrings rereadString).erase) ∨
    (.torn ∈ document.written.words.map Word.seen ∧
      Document.parse document.print = .error .tornString) := by
  have laid := Document.laid document.not_hidesVariables_written
  rw [document.chars_written] at laid
  have ⟨seen, complete⟩ := laid.scan (fits.written.legible floatFree.written) .start
  have tears : List.Forall₂ Token.Tears (tokens (document.written.mapStrings rereadString).words)
      (document.written.words.map Word.seen) := by
    rw [Document.words_mapStrings, tokens, List.map_map, List.forall₂_map_left_iff,
      List.forall₂_map_right_iff, List.forall₂_same]
    exact fun word _ => word.tears_seen
  have changed : (document.written.mapStrings rereadString).Fits := fits.written.mapStrings
  have spelled : document.print.toList = document.chars := String.toList_ofList
  rcases (Grammar.takes_document changed).ending (torn_not_mem_tokens _) tears with
    ⟨noneTorn, read⟩ | ⟨torn, read⟩
  · rw [← seen] at read
    exact .inl ⟨noneTorn, Document.parse_of_tokens (by rwa [spelled]) (by rwa [spelled])⟩
  · rw [← seen] at read
    exact .inr ⟨torn, Document.parse_of_breakdown (by rwa [spelled])⟩

theorem Document.Fits.parse_print {document : Document} (fits : document.Fits)
    (floatFree : document.FloatFree)
    (whole : ∀ indent text, .string indent text ∈ document.written.words →
      rereadString? indent text ≠ none) :
    ∃ found, Document.parse document.print = .ok found ∧
      found.erase = (document.written.mapStrings rereadString).erase := by
  rcases fits.parse_print_cases floatFree with ⟨_, read⟩ | ⟨torn, _⟩
  · exact read
  · rcases torn_mem_seen.1 torn with ⟨indent, text, present, missing⟩
    exact absurd missing (whole indent text present)

theorem Document.Fits.parse_print_of_torn {document : Document} (fits : document.Fits)
    (floatFree : document.FloatFree) {indent : Nat} {text : String}
    (present : .string indent text ∈ document.written.words)
    (torn : rereadString? indent text = none) :
    Document.parse document.print = .error .tornString := by
  rcases fits.parse_print_cases floatFree with ⟨noneTorn, _⟩ | ⟨_, stopped⟩
  · exact absurd (torn_mem_seen.2 ⟨indent, text, present, torn⟩) noneTorn
  · exact stopped

/-- Documents with the same words are equal up to places. -/
theorem Document.Fits.erase_eq_erase {first second : Document} (fits : first.Fits)
    (otherFits : second.Fits) (same : tokens first.words = tokens second.words) :
    first.erase = second.erase := by
  have read := Grammar.run_document fits
  rw [same] at read
  exact (Prod.mk.inj (Except.ok.inj (read.symm.trans (Grammar.run_document otherFits)))).1

/-- Only the strings that stand in a document are changed. -/
theorem Document.Fits.erase_mapStrings_congr {document : Document} (fits : document.Fits)
    {change other : Nat → String → String}
    (same : ∀ indent text, .string indent text ∈ document.words →
      change indent text = other indent text) :
    (document.mapStrings change).erase = (document.mapStrings other).erase := by
  apply Fits.erase_eq_erase fits.mapStrings fits.mapStrings
  rw [words_mapStrings, words_mapStrings]
  refine congrArg tokens (List.map_congr_left fun word present => ?_)
  cases word with
  | string indent text => exact congrArg (Word.string indent) (same indent text present)
  | symbol _ | name _ | int _ | float _ => rfl

/-- A change that fixes all strings of a document changes nothing but places. -/
theorem Document.erase_mapStrings_eq_erase {document : Document} (fits : document.Fits)
    {change : Nat → String → String}
    (fixed : ∀ indent text, .string indent text ∈ document.words → change indent text = text) :
    (document.mapStrings change).erase = document.erase := by
  apply Fits.erase_eq_erase fits.mapStrings fits
  rw [words_mapStrings]
  refine congrArg tokens (Eq.trans (List.map_congr_left fun word present => ?_) (List.map_id _))
  cases word with
  | string indent text => exact congrArg (Word.string indent) (fixed indent text present)
  | symbol _ | name _ | int _ | float _ => rfl

/-! ## Documents that are printed alike -/

/-- The printed form of a string. -/
def spelledString (indent : Nat) (s : String) : String := String.ofList (stringChars indent s)

/-- The token with a string in its printed form. -/
def Token.spelled : Token × List Char → Token
  | (.string _, chars) | (.torn, chars) => .string (String.ofList chars)
  | (token, _) => token

theorem Word.spelled_seen (word : Word) :
    Token.spelled (word.seen, word.chars) = (word.mapString spelledString).token := by
  cases word with
  | string indent text =>
      rw [seen, stringToken]
      cases rereadString? indent text <;> rfl
  | symbol _ | name _ | int _ | float _ => rfl

/-- The printed form of a document gives back everything in it, the strings as they are printed. -/
theorem Document.spelled_of_chars {first second : Document} (fits : first.Fits)
    (fitsSecond : second.Fits) (floatFree : first.FloatFree) (floatFreeSecond : second.FloatFree)
    (written : ¬first.HidesVariables) (writtenSecond : ¬second.HidesVariables)
    (same : first.chars = second.chars) :
    (first.mapStrings spelledString).erase = (second.mapStrings spelledString).erase := by
  have words := (Document.laid written).unique (same ▸ Document.laid writtenSecond)
    (fits.legible floatFree) (fitsSecond.legible floatFreeSecond)
  have meant (document : Document) : tokens (document.mapStrings spelledString).words =
      (document.words.map fun word => (word.seen, word.chars)).map Token.spelled := by
    rw [Document.words_mapStrings, tokens, List.map_map, List.map_map]
    exact List.map_congr_left fun word _ => word.spelled_seen.symm
  apply Fits.erase_eq_erase fits.mapStrings fitsSecond.mapStrings
  rw [meant, meant, words]

end PersistedDocuments.GraphQL
