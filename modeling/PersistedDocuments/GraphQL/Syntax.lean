import PersistedDocuments.GraphQL.Value

/-!
# Executable documents

The syntax tree of GraphQL queries, mutations, subscriptions and fragments. Nodes keep the place in
the text where they begin; `erase` forgets all places, and two trees with the same erasure say the
same. A leaf field is a field whose selection list is empty.
-/

namespace PersistedDocuments.GraphQL

/-- A place in a text, both numbers counted from one. -/
structure Pos where
  line : Nat
  column : Nat
  deriving DecidableEq, Repr

/-- The place that stands for no place. -/
def Pos.nowhere : Pos := ⟨0, 0⟩

/-- The places of an opening and a closing brace. -/
structure Span where
  first : Pos
  last : Pos
  deriving DecidableEq, Repr

/-- The span that stands for no place. -/
def Span.nowhere : Span := ⟨.nowhere, .nowhere⟩

/-- The type of a variable. -/
inductive Ty where
  | named (name : String)
  | list (item : Ty)
  | nonNull (type : Ty)
  deriving DecidableEq

structure Directive where
  pos : Pos
  name : String
  arguments : Members
  deriving BEq

/-- The definition of an operation's variable. -/
structure Variable where
  pos : Pos
  name : String
  type : Ty
  default : Option Value
  deriving BEq

/-- A field without what is selected below it. -/
structure FieldHead where
  pos : Pos
  aliasName : Option String
  name : String
  arguments : Members
  directives : List Directive
  deriving BEq

inductive Selection where
  | field (head : FieldHead) (span : Span) (items : List Selection)
  | spread (pos : Pos) (name : String) (directives : List Directive)
  | inline (pos : Pos) (typeCondition : Option String) (directives : List Directive) (span : Span)
      (items : List Selection)

abbrev Selections := List Selection

mutual
def Selection.beq : Selection → Selection → Bool
  | .field head span items, .field head' span' items' =>
    head == head' && span == span' && Selections.beq items items'
  | .spread pos name directives, .spread pos' name' directives' =>
    pos == pos' && name == name' && directives == directives'
  | .inline pos condition directives span items, .inline pos' condition' directives' span' items' =>
    pos == pos' && condition == condition' && directives == directives' && span == span' &&
      Selections.beq items items'
  | _, _ => false

def Selections.beq : Selections → Selections → Bool
  | [], [] => true
  | selection :: rest, selection' :: rest' => selection.beq selection' && Selections.beq rest rest'
  | _, _ => false
end

instance : BEq Selection := ⟨Selection.beq⟩

/-- The selections of an operation or fragment, and the places of their braces. -/
structure SelectionSet where
  span : Span
  items : Selections
  deriving BEq

inductive OperationKind where
  | query
  | mutation
  | subscription
  deriving DecidableEq

/-- What stands before the selection set of an operation. -/
structure OperationHeader where
  pos : Pos
  kind : OperationKind
  name : Option String
  variableDefinitions : List Variable
  directives : List Directive
  deriving BEq

/-- An operation; without a header it is the shorthand for a query. -/
structure Operation where
  header : Option OperationHeader
  selectionSet : SelectionSet
  deriving BEq

structure Fragment where
  pos : Pos
  name : String
  typeCondition : String
  directives : List Directive
  selectionSet : SelectionSet
  deriving BEq

inductive Definition where
  | operation (operation : Operation)
  | fragment (fragment : Fragment)
  deriving BEq

structure Document where
  definitions : List Definition
  deriving BEq

/-! ## Views of definitions and documents -/

/-- The keyword of an operation. -/
def OperationKind.keyword : OperationKind → String
  | .query => "query"
  | .mutation => "mutation"
  | .subscription => "subscription"

/-- The kind of an operation; the shorthand is a query. -/
def Operation.kind (operation : Operation) : OperationKind :=
  match operation.header with
  | some header => header.kind
  | none => .query

def Operation.name? (operation : Operation) : Option String := operation.header.bind (·.name)

namespace Definition

def operation? : Definition → Option Operation
  | .operation op => some op
  | .fragment _ => none

def fragment? : Definition → Option Fragment
  | .operation _ => none
  | .fragment fr => some fr

def isOperation (definition : Definition) : Bool := definition.operation?.isSome

def isFragment (definition : Definition) : Bool := definition.fragment?.isSome

/-- Queries and the shorthand for them. -/
def isQuery : Definition → Bool
  | .operation op => op.kind = .query
  | .fragment _ => false

def name? : Definition → Option String
  | .operation op => op.name?
  | .fragment fr => some fr.name

def selectionSet : Definition → SelectionSet
  | .operation op => op.selectionSet
  | .fragment fr => fr.selectionSet

end Definition

namespace Document

/-- The operations, in document order. -/
def operations (document : Document) : List Operation :=
  document.definitions.filterMap Definition.operation?

/-- The fragment definitions, in document order. -/
def fragments (document : Document) : List Fragment :=
  document.definitions.filterMap Definition.fragment?

/-- The queries, in document order. -/
def queries (document : Document) : List Operation :=
  (document.definitions.filter Definition.isQuery).filterMap Definition.operation?

/-- The document that consists of one operation. -/
def ofOperation (operation : Operation) : Document := ⟨[.operation operation]⟩

end Document

/-! ## Forgetting places -/

def Directive.erase (directive : Directive) : Directive := { directive with pos := .nowhere }

def Variable.erase (var : Variable) : Variable := { var with pos := .nowhere }

def FieldHead.erase (head : FieldHead) : FieldHead :=
  { head with pos := .nowhere, directives := head.directives.map Directive.erase }

mutual
def Selection.erase : Selection → Selection
  | .field head _ items => .field head.erase .nowhere (Selections.erase items)
  | .spread _ name directives => .spread .nowhere name (directives.map Directive.erase)
  | .inline _ condition directives _ items =>
    .inline .nowhere condition (directives.map Directive.erase) .nowhere (Selections.erase items)

def Selections.erase : Selections → Selections
  | [] => []
  | selection :: rest => selection.erase :: Selections.erase rest
end

def SelectionSet.erase (set : SelectionSet) : SelectionSet :=
  ⟨.nowhere, Selections.erase set.items⟩

def OperationHeader.erase (header : OperationHeader) : OperationHeader :=
  { header with
    pos := .nowhere
    variableDefinitions := header.variableDefinitions.map Variable.erase
    directives := header.directives.map Directive.erase }

def Operation.erase (operation : Operation) : Operation :=
  ⟨operation.header.map OperationHeader.erase, operation.selectionSet.erase⟩

def Fragment.erase (fragment : Fragment) : Fragment :=
  { fragment with
    pos := .nowhere
    directives := fragment.directives.map Directive.erase
    selectionSet := fragment.selectionSet.erase }

def Definition.erase : Definition → Definition
  | .operation op => .operation op.erase
  | .fragment fr => .fragment fr.erase

/-- The document without the places of its nodes. -/
def Document.erase (document : Document) : Document :=
  ⟨document.definitions.map Definition.erase⟩

end PersistedDocuments.GraphQL
