import PersistedDocuments.GraphQL.Printer
import PersistedDocuments.GraphQL.Token

/-!
# The words of a printed document

A printed document consists of words with blanks, commas and line ends between them. The words are
listed here without regard to layout; only strings remember the indentation for which they are
written, because the block strings among them depend on it. Every value of a document stands in its
words, and `mapStrings` changes the strings of a document as a change of its words does.
-/

namespace PersistedDocuments.GraphQL

/-- What stands between separators: a token, in the spelling of the printer. -/
inductive Word where
  | symbol (punctuator : Punctuator)
  | name (text : String)
  | int (value : Int)
  | float (value : Float)
  | string (indent : Nat) (value : String)

def Punctuator.chars : Punctuator → List Char
  | .openParen => ['(']
  | .closeParen => [')']
  | .openBracket => ['[']
  | .closeBracket => [']']
  | .openBrace => ['{']
  | .closeBrace => ['}']
  | .bang => ['!']
  | .dollar => ['$']
  | .colon => [':']
  | .equals => ['=']
  | .atSign => ['@']
  | .pipe => ['|']
  | .ampersand => ['&']
  | .spread => ['.', '.', '.']

namespace Word

/-- The token that the word means. -/
def token : Word → Token
  | .symbol punctuator => .punctuator punctuator
  | .name text => .name text
  | .int value => .int value
  | .float value => .float value
  | .string _ value => .string value

/-- The printed form of the word. -/
def chars : Word → List Char
  | .symbol punctuator => punctuator.chars
  | .name text => text.toList
  | .int value => intChars value
  | .float value => floatChars value
  | .string indent value => stringChars indent value

/-- The text of a string. -/
def text? : Word → Option String
  | .string _ value => some value
  | _ => none

def isFloat : Word → Bool
  | .float _ => true
  | _ => false

theorem forall_text_iff {words : List Word} {p : String → Prop} :
    (∀ text ∈ words.filterMap text?, p text) ↔
      ∀ indent text, .string indent text ∈ words → p text := by
  constructor
  · exact fun all indent text present => all text (List.mem_filterMap.2 ⟨_, present, rfl⟩)
  · intro all text found
    rcases List.mem_filterMap.1 found with ⟨word, present, same⟩
    cases word with
    | string indent value =>
        cases same
        exact all indent text present
    | symbol _ | name _ | int _ | float _ => cases same

theorem forall_isFloat_iff {words : List Word} :
    (∀ word ∈ words, word.isFloat = false) ↔ ∀ x, .float x ∉ words := by
  constructor
  · exact fun all x present => Bool.noConfusion (all (.float x) present)
  · intro none word present
    cases word with
    | float x => exact absurd present (none x)
    | symbol _ | name _ | int _ | string _ _ => rfl

/-- The word with another text in the place of a string. -/
def mapString (change : Nat → String → String) : Word → Word
  | .string indent value => .string indent (change indent value)
  | word => word

end Word

/-! ## The words of each phrase -/

/-- Words between parentheses, or nothing if there are none. -/
def parenWords (words : List Word) : List Word :=
  if words.isEmpty then [] else .symbol .openParen :: words ++ [.symbol .closeParen]

/-- Words between braces. -/
def braceWords (words : List Word) : List Word :=
  .symbol .openBrace :: words ++ [.symbol .closeBrace]

mutual
def Value.words (indent : Nat) : Value → List Word
  | .variable name => [.symbol .dollar, .name name]
  | .int value => [.int value]
  | .float value => [.float value]
  | .string value => [.string indent value]
  | .boolean true => [.name "true"]
  | .boolean false => [.name "false"]
  | .null => [.name "null"]
  | .enum name => [.name name]
  | .list items => .symbol .openBracket :: Values.words indent items ++ [.symbol .closeBracket]
  | .object members => .symbol .openBrace :: Members.words indent members ++ [.symbol .closeBrace]

def Values.words (indent : Nat) : Values → List Word
  | [] => []
  | value :: rest => value.words indent ++ Values.words indent rest

def Members.words (indent : Nat) : Members → List Word
  | [] => []
  | (name, value) :: rest =>
    .name name :: .symbol .colon :: value.words indent ++ Members.words indent rest
end

def Ty.words : Ty → List Word
  | .named name => [.name name]
  | .list item => .symbol .openBracket :: item.words ++ [.symbol .closeBracket]
  | .nonNull type => type.words ++ [.symbol .bang]

def Directive.words (indent : Nat) (directive : Directive) : List Word :=
  .symbol .atSign :: .name directive.name :: parenWords (Members.words indent directive.arguments)

/-- The words of a variable's default, if there is one. -/
def defaultWords : Option Value → List Word
  | some value => .symbol .equals :: value.words 0
  | none => []

def Variable.words (var : Variable) : List Word :=
  .symbol .dollar :: .name var.name :: .symbol .colon :: var.type.words ++ defaultWords var.default

/-- The words of a field's alias, if there is one. -/
def aliasWords : Option String → List Word
  | some label => [.name label, .symbol .colon]
  | none => []

def FieldHead.words (indent : Nat) (head : FieldHead) : List Word :=
  aliasWords head.aliasName ++ .name head.name ::
    parenWords (Members.words indent head.arguments) ++
      head.directives.flatMap (Directive.words indent)

/-- The words of a type condition, if there is one. -/
def conditionWords : Option String → List Word
  | some name => [.name "on", .name name]
  | none => []

mutual
def Selection.words (indent : Nat) : Selection → List Word
  | .field head _ items =>
    head.words indent ++
      if items.isEmpty then [] else braceWords (Selections.words (indent + 2) items)
  | .spread _ name directives =>
    .symbol .spread :: .name name :: directives.flatMap (Directive.words indent)
  | .inline _ condition directives _ items =>
    .symbol .spread :: conditionWords condition ++ directives.flatMap (Directive.words indent) ++
      braceWords (Selections.words (indent + 2) items)

def Selections.words (indent : Nat) : Selections → List Word
  | [] => []
  | selection :: rest => selection.words indent ++ Selections.words indent rest
end

def SelectionSet.words (set : SelectionSet) : List Word := braceWords (Selections.words 2 set.items)

/-- The word of an operation's name, if there is one. -/
def nameWords : Option String → List Word
  | some name => [.name name]
  | none => []

def OperationHeader.words (header : OperationHeader) : List Word :=
  .name header.kind.keyword :: nameWords header.name ++
    parenWords (header.variableDefinitions.flatMap Variable.words) ++
    header.directives.flatMap (Directive.words 0)

def Operation.words (operation : Operation) : List Word :=
  (match operation.header with
    | some header => header.words
    | none => []) ++
  operation.selectionSet.words

def Fragment.words (fragment : Fragment) : List Word :=
  .name "fragment" :: .name fragment.name :: .name "on" :: .name fragment.typeCondition ::
    fragment.directives.flatMap (Directive.words 0) ++ fragment.selectionSet.words

def Definition.words : Definition → List Word
  | .operation op => op.words
  | .fragment fr => fr.words

/-- The words of all definitions. -/
def Document.words (document : Document) : List Word :=
  document.definitions.flatMap Definition.words

/-! ## The words of lists -/

theorem Values.words_eq_flatMap (indent : Nat) (values : Values) :
    Values.words indent values = values.flatMap (Value.words indent) := by
  induction values with
  | nil => rfl
  | cons value rest ih => rw [Values.words, ih, List.flatMap_cons]

/-- The words of a member. -/
def memberWords (indent : Nat) (member : String × Value) : List Word :=
  .name member.1 :: .symbol .colon :: member.2.words indent

theorem Members.words_eq_flatMap (indent : Nat) (members : Members) :
    Members.words indent members = members.flatMap (memberWords indent) := by
  induction members with
  | nil => rfl
  | cons member rest ih => rw [Members.words, ih, List.flatMap_cons]; rfl

theorem Selections.words_eq_flatMap (indent : Nat) (items : Selections) :
    Selections.words indent items = items.flatMap (Selection.words indent) := by
  induction items with
  | nil => rfl
  | cons item rest ih => rw [Selections.words, ih, List.flatMap_cons]

/-! ## Changing the strings of a document -/

mutual
def Value.mapStrings (change : String → String) : Value → Value
  | .string value => .string (change value)
  | .list items => .list (Values.mapStrings change items)
  | .object members => .object (Members.mapStrings change members)
  | value => value

def Values.mapStrings (change : String → String) : Values → Values
  | [] => []
  | value :: rest => value.mapStrings change :: Values.mapStrings change rest

def Members.mapStrings (change : String → String) : Members → Members
  | [] => []
  | (name, value) :: rest => (name, value.mapStrings change) :: Members.mapStrings change rest
end

def Directive.mapStrings (change : String → String) (directive : Directive) : Directive :=
  { directive with arguments := Members.mapStrings change directive.arguments }

def Variable.mapStrings (change : String → String) (var : Variable) : Variable :=
  { var with default := var.default.map (Value.mapStrings change) }

def FieldHead.mapStrings (change : String → String) (head : FieldHead) : FieldHead :=
  { head with
    arguments := Members.mapStrings change head.arguments
    directives := head.directives.map (Directive.mapStrings change) }

mutual
def Selection.mapStrings (change : Nat → String → String) (indent : Nat) : Selection → Selection
  | .field head span items =>
    .field (head.mapStrings (change indent)) span (Selections.mapStrings change (indent + 2) items)
  | .spread pos name directives =>
    .spread pos name (directives.map (Directive.mapStrings (change indent)))
  | .inline pos condition directives span items =>
    .inline pos condition (directives.map (Directive.mapStrings (change indent))) span
      (Selections.mapStrings change (indent + 2) items)

def Selections.mapStrings (change : Nat → String → String) (indent : Nat) : Selections → Selections
  | [] => []
  | selection :: rest =>
    selection.mapStrings change indent :: Selections.mapStrings change indent rest
end

def SelectionSet.mapStrings (change : Nat → String → String) (set : SelectionSet) : SelectionSet :=
  ⟨set.span, Selections.mapStrings change 2 set.items⟩

def OperationHeader.mapStrings (change : Nat → String → String) (header : OperationHeader) :
    OperationHeader :=
  { header with
    variableDefinitions := header.variableDefinitions.map (Variable.mapStrings (change 0))
    directives := header.directives.map (Directive.mapStrings (change 0)) }

def Operation.mapStrings (change : Nat → String → String) (operation : Operation) : Operation :=
  ⟨operation.header.map (OperationHeader.mapStrings change),
    operation.selectionSet.mapStrings change⟩

def Fragment.mapStrings (change : Nat → String → String) (fragment : Fragment) : Fragment :=
  { fragment with
    directives := fragment.directives.map (Directive.mapStrings (change 0))
    selectionSet := fragment.selectionSet.mapStrings change }

def Definition.mapStrings (change : Nat → String → String) : Definition → Definition
  | .operation op => .operation (op.mapStrings change)
  | .fragment fr => .fragment (fr.mapStrings change)

/-- The document with other texts in the places of its strings. A text may depend on the indentation
for which the string is printed. -/
def Document.mapStrings (change : Nat → String → String) (document : Document) : Document :=
  ⟨document.definitions.map (Definition.mapStrings change)⟩

end PersistedDocuments.GraphQL
