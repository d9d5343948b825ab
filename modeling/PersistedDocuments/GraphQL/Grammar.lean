import PersistedDocuments.GraphQL.Reader

/-!
# Grammar of executable documents

One reader for each phrase of the grammar. The number that most of them take says how many brackets
may still be opened; it bounds the nesting of a document, and with it the recursion.
`Document.parse` reads a whole text; it fails at the first token that does not fit, and breaks down
at the first torn string in the place of a value.
-/

namespace PersistedDocuments.GraphQL

open Reader

namespace Grammar

/-- The most brackets of all kinds that may be open at once. -/
def nestingLimit : Nat := 50

/-- What stands between an opening and a closing bracket, read with one bracket less to open. -/
def bracketed {α : Type} (left right : Punctuator) (content : Nat → Reader α) :
    Nat → Reader (Span × α)
  | 0 => do reject (← next)
  | depth + 1 => do
    let first ← symbol left
    let found ← content depth
    let last ← symbol right
    return (⟨first, last⟩, found)

/-- The literal or enum value that a name stands for. -/
def valueOfName : String → Value
  | "true" => .boolean true
  | "false" => .boolean false
  | "null" => .null
  | text => .enum text

/-- A name, a colon, and what follows them. -/
def member (value : Reader Value) : Reader (String × Value) := do
  let text ← name
  let _ ← symbol .colon
  return (text, ← value)

/-- A value; only if `dynamic` may it hold variables. `nested` reads the values inside a list or
object, where another bracket may be opened. -/
def valueAround (dynamic : Bool) (nested : Option (Reader Value)) : Reader Value := do
  let lexeme ← next
  match lexeme.token, nested with
  | .name text, _ => return valueOfName text
  | .int n, _ => return .int n
  | .float x, _ => return .float x
  | .string s, _ => return .string s
  | .torn, _ => breakDown
  | .punctuator .dollar, _ => if dynamic then .variable <$> name else reject lexeme
  | .punctuator .openBracket, some item => do
    let items ← many (isNot .closeBracket) item
    let _ ← symbol .closeBracket
    return .list items
  | .punctuator .openBrace, some item => do
    let members ← many (isNot .closeBrace) (member item)
    let _ ← symbol .closeBrace
    return .ofMembers members
  | _, _ => reject lexeme

def value (dynamic : Bool) : Nat → Reader Value
  | 0 => valueAround dynamic none
  | depth + 1 => valueAround dynamic (some (value dynamic depth))

/-- A type. `nested` reads the type of a list's items, where another bracket may be opened. -/
def typeAround (nested : Option (Reader Ty)) : Reader Ty := do
  let lexeme ← next
  let type ←
    match lexeme.token, nested with
    | .name text, _ => pure (Ty.named text)
    | .punctuator .openBracket, some item => do
      let item ← item
      let _ ← symbol .closeBracket
      pure (Ty.list item)
    | _, _ => reject lexeme
  if ← accept .bang then return .nonNull type else return type

def type : Nat → Reader Ty
  | 0 => typeAround none
  | depth + 1 => typeAround (some (type depth))

/-- What stands in parentheses, if the next token opens one. -/
def inParens {α : Type} (item : Nat → Reader α) (depth : Nat) : Reader (List α) := do
  if ← sees .openParen then
    let found ←
      bracketed .openParen .closeParen (fun depth => many1 (isNot .closeParen) (item depth)) depth
    return found.2
  else return []

def arguments (depth : Nat) : Reader Members :=
  inParens (fun depth => member (value true depth)) depth

def directive (depth : Nat) : Reader Directive := do
  let pos ← symbol .atSign
  let text ← name
  return ⟨pos, text, ← arguments depth⟩

def directives (depth : Nat) : Reader (List Directive) :=
  many (· = .punctuator .atSign) (directive depth)

/-- The definition of a variable, whose default holds no variables. -/
def variableDefinition (depth : Nat) : Reader Variable := do
  let pos ← symbol .dollar
  let text ← name
  let _ ← symbol .colon
  let type ← type depth
  let default ← if ← accept .equals then some <$> value false depth else pure none
  return ⟨pos, text, type, default⟩

/-- A field whose first name has been taken. -/
def field (depth : Nat) (set : Reader SelectionSet) (pos : Pos) (first : String) :
    Reader Selection := do
  let second ← if ← accept .colon then some <$> name else pure none
  let arguments ← arguments depth
  let directives ← directives depth
  let head : FieldHead :=
    match second with
    | some text => ⟨pos, some first, text, arguments, directives⟩
    | none => ⟨pos, none, first, arguments, directives⟩
  if ← sees .openBrace then
    let set ← set
    return .field head set.span set.items
  else return .field head ⟨pos, pos⟩ []

/-- An inline fragment behind its type condition. -/
def inline (depth : Nat) (set : Reader SelectionSet) (pos : Pos) (condition : Option String) :
    Reader Selection := do
  let directives ← directives depth
  let set ← set
  return .inline pos condition directives set.span set.items

/-- A spread or inline fragment whose dots have been taken. -/
def spread (depth : Nat) (set : Reader SelectionSet) (pos : Pos) : Reader Selection := do
  match ← name? with
  | some "on" => inline depth set pos (some (← name))
  | some text => return .spread pos text (← directives depth)
  | none => inline depth set pos none

/-- A selection, given the reader for the set that may stand below it. -/
def selection (depth : Nat) (set : Reader SelectionSet) : Reader Selection := do
  let lexeme ← next
  match lexeme.token with
  | .name text => field depth set lexeme.pos text
  | .punctuator .spread => spread depth set lexeme.pos
  | _ => reject lexeme

/-- A selection set, of one selection at least. -/
def selectionSet : Nat → Reader SelectionSet
  | 0 => do reject (← next)
  | depth + 1 => do
    let first ← symbol .openBrace
    let items ← many1 (isNot .closeBrace) (selection depth (selectionSet depth))
    let last ← symbol .closeBrace
    return ⟨⟨first, last⟩, items⟩

/-- An operation whose keyword has been taken. -/
def operation (pos : Pos) (kind : OperationKind) : Reader Operation := do
  let text ← name?
  let definitions ← inParens variableDefinition nestingLimit
  let directives ← directives nestingLimit
  let set ← selectionSet nestingLimit
  return ⟨some ⟨pos, kind, text, definitions, directives⟩, set⟩

/-- A fragment definition whose keyword has been taken. -/
def fragment (pos : Pos) : Reader Fragment := do
  let text ← name
  let _ ← expect (.name "on")
  let condition ← name
  let directives ← directives nestingLimit
  let set ← selectionSet nestingLimit
  return ⟨pos, text, condition, directives, set⟩

def definition : Reader Definition := do
  if ← sees .openBrace then return .operation ⟨none, ← selectionSet nestingLimit⟩
  let lexeme ← next
  match lexeme.token with
  | .name "query" => .operation <$> operation lexeme.pos .query
  | .name "mutation" => .operation <$> operation lexeme.pos .mutation
  | .name "subscription" => .operation <$> operation lexeme.pos .subscription
  | .name "fragment" => .fragment <$> fragment lexeme.pos
  | _ => reject lexeme

/-- Definitions, one at least, up to the end. -/
def document : Reader Document := Document.mk <$> many1 (fun _ => true) definition

end Grammar

/-- What stands in the way of reading a document. -/
inductive Obstacle where
  /-- The first token that does not fit stands here. -/
  | token (pos : Pos)
  /-- A torn string stands in the place of a value. -/
  | tornString
  deriving DecidableEq

/-- The document that lexemes stand for, or what keeps them from making one. -/
def Scan.document (scanned : Scan) : Except Obstacle Document :=
  match Grammar.document scanned.lexemes with
  | .error (.lexeme pos) => .error (.token pos)
  | .error .ending => .error (.token scanned.stop)
  | .error .breakdown => .error .tornString
  | .ok (document, _) => if scanned.complete then .ok document else .error (.token scanned.stop)

/-- The document that a text stands for, or the first thing in it that keeps it from being one. -/
def Document.parse (text : String) : Except Obstacle Document := (scan .start text.toList).document

end PersistedDocuments.GraphQL
