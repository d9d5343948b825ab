import PersistedDocuments.Decimal.Shortest
import PersistedDocuments.GraphQL.BlockString
import PersistedDocuments.GraphQL.Syntax

/-!
# Printed form of documents

Every selection stands on a line of its own, two blanks further in than what it stands below, and an
empty line separates definitions. Values are printed for the indentation of the selection in which
they stand, because block strings repeat it.

The printed form does not show everything: a subscription without a name loses its variables, and
strings come back changed where their printed form reads differently.
-/

namespace PersistedDocuments.GraphQL

open BlockString (blanks)

/-- Texts with a comma and a blank between each two neighbours. -/
def commas (texts : List (List Char)) : List Char := [',', ' '].intercalate texts

/-- Texts between parentheses, or nothing if there are none. -/
def parens (texts : List (List Char)) : List Char :=
  if texts.isEmpty then [] else '(' :: commas texts ++ [')']

def intChars : Int → List Char
  | .ofNat n => Decimal.digitChars n
  | .negSucc n => '-' :: Decimal.digitChars (n + 1)

/-- The shortest digits that read back, without an exponent, and without a point if no digit stands
behind it. -/
def floatChars (x : Float) : List Char :=
  let magnitude :=
    if x.isNaN then "NaN".toList
    else if x.isInf then "inf".toList
    else (Decimal.shortest .up x).positional
  if Decimal.isNegative x then '-' :: magnitude else magnitude

def stringChars (indent : Nat) (s : String) : List Char :=
  if BlockString.suits s.toList then BlockString.encode indent s.toList
  else QuotedString.encode s.toList

mutual
def Value.chars (indent : Nat) : Value → List Char
  | .variable name => '$' :: name.toList
  | .int value => intChars value
  | .float value => floatChars value
  | .string value => stringChars indent value
  | .boolean true => "true".toList
  | .boolean false => "false".toList
  | .null => "null".toList
  | .enum name => name.toList
  | .list items => '[' :: commas (Values.texts indent items) ++ [']']
  | .object members => '{' :: commas (Members.texts indent members) ++ ['}']

def Values.texts (indent : Nat) : Values → List (List Char)
  | [] => []
  | value :: rest => value.chars indent :: Values.texts indent rest

def Members.texts (indent : Nat) : Members → List (List Char)
  | [] => []
  | (name, value) :: rest =>
    (name.toList ++ ':' :: ' ' :: value.chars indent) :: Members.texts indent rest
end

def Ty.chars : Ty → List Char
  | .named name => name.toList
  | .list item => '[' :: item.chars ++ [']']
  | .nonNull type => type.chars ++ ['!']

def Directive.chars (indent : Nat) (directive : Directive) : List Char :=
  '@' :: directive.name.toList ++ parens (Members.texts indent directive.arguments)

/-- Directives, each with a blank before it. -/
def directivesChars (indent : Nat) (directives : List Directive) : List Char :=
  directives.flatMap fun directive => ' ' :: directive.chars indent

def Variable.chars (var : Variable) : List Char :=
  '$' :: var.name.toList ++ ':' :: ' ' :: var.type.chars ++
    match var.default with
    | some value => ' ' :: '=' :: ' ' :: value.chars 0
    | none => []

def FieldHead.chars (indent : Nat) (head : FieldHead) : List Char :=
  (match head.aliasName with
    | some label => label.toList ++ [':', ' ']
    | none => []) ++
  head.name.toList ++ parens (Members.texts indent head.arguments) ++
    directivesChars indent head.directives

/-- Lines between braces, the closing one at the given indentation. -/
def braces (indent : Nat) (lines : List Char) : List Char :=
  '{' :: '\n' :: lines ++ blanks indent ++ ['}', '\n']

mutual
/-- The lines of a selection. -/
def Selection.chars (indent : Nat) : Selection → List Char
  | .field head _ items =>
    blanks indent ++ head.chars indent ++
      if items.isEmpty then ['\n'] else ' ' :: braces indent (Selections.chars (indent + 2) items)
  | .spread _ name directives =>
    blanks indent ++ "...".toList ++ name.toList ++ directivesChars indent directives ++ ['\n']
  | .inline _ condition directives _ items =>
    blanks indent ++ "...".toList ++
      (match condition with
        | some name => " on ".toList ++ name.toList
        | none => []) ++
      directivesChars indent directives ++
      ' ' :: braces indent (Selections.chars (indent + 2) items)

def Selections.chars (indent : Nat) : Selections → List Char
  | [] => []
  | selection :: rest => selection.chars indent ++ Selections.chars indent rest
end

def SelectionSet.chars (set : SelectionSet) : List Char := braces 0 (Selections.chars 2 set.items)

/-- The variables of an operation in parentheses. A subscription writes them without a separator,
and only behind a name. -/
def OperationHeader.variablesChars (header : OperationHeader) : List Char :=
  let texts := header.variableDefinitions.map Variable.chars
  match header.kind with
  | .subscription =>
    if header.name.isNone || texts.isEmpty then [] else '(' :: texts.flatten ++ [')']
  | _ => parens texts

def OperationHeader.chars (header : OperationHeader) : List Char :=
  header.kind.keyword.toList ++
    (match header.name with
      | some name => ' ' :: name.toList
      | none => []) ++
    header.variablesChars ++ directivesChars 0 header.directives ++ [' ']

def Operation.chars (operation : Operation) : List Char :=
  (match operation.header with
    | some header => header.chars
    | none => []) ++
  operation.selectionSet.chars

def Fragment.chars (fragment : Fragment) : List Char :=
  "fragment ".toList ++ fragment.name.toList ++ " on ".toList ++ fragment.typeCondition.toList ++
    directivesChars 0 fragment.directives ++ ' ' :: fragment.selectionSet.chars

def Definition.chars : Definition → List Char
  | .operation op => op.chars
  | .fragment fr => fr.chars

def Document.chars (document : Document) : List Char :=
  ['\n'].intercalate (document.definitions.map Definition.chars)

/-- The printed form of a document. -/
def Document.print (document : Document) : String := String.ofList document.chars

end PersistedDocuments.GraphQL
