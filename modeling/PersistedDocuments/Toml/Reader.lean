import PersistedDocuments.Toml.Scalar
import PersistedDocuments.Toml.Text
import PersistedDocuments.Toml.Value

/-!
# Reading TOML

A document is a list of sections, each a header with the assignments below it; the first has no
header. `Toml.read?` makes one table of them, or nothing if the text breaks the grammar or defines
something twice.
-/

namespace PersistedDocuments.Toml

abbrev Reader := StateT (List Char) Option

namespace Reader

variable {α : Type}

/-- The most brackets that may be open at once in a value, and the most parts of a key. -/
def nestingLimit : Nat := 79

def peek : Reader (Option Char) := do return (← get).head?

def symbol (c : Char) : Reader Unit := do
  match ← get with
  | d :: rest => if c = d then set rest else failure
  | [] => failure

/-- Skips blanks. -/
def blanks : Reader Unit := modify (List.dropWhile Text.isBlank)

/-- Skips a comment, if there is one, up to the end of its line. -/
def comment : Reader Unit := do
  if (← peek) = some '#' then modify (List.dropWhile Text.isPlain)

/-- Takes the end of a line, or sees the end of the text. -/
def lineEnd : Reader Unit := do
  match ← get with
  | [] => pure ()
  | cs =>
    match Text.lineEnd? cs with
    | some rest => set rest
    | none => failure

/-- What may follow a statement on its line. -/
def restOfLine : Reader Unit := do
  blanks
  comment
  lineEnd

/-- Skips blanks, line ends and comments, each up to its line end. -/
def trivia : Nat → Reader Unit
  | 0 => pure ()
  | n + 1 => do
    blanks
    match ← get with
    | '#' :: _ =>
      comment
      match Text.lineEnd? (← get) with
      | some rest =>
        set rest
        trivia n
      | none => failure
    | cs =>
      match Text.lineEnd? cs with
      | some rest =>
        set rest
        trivia n
      | none => pure ()

def isBareKeyPart (c : Char) : Bool := c.isAlphanum || c = '_' || c = '-'

/-- A part of a key. -/
def simpleKey : Reader String := do
  match ← get with
  | '"' :: rest =>
    let (text, rest) ← Text.basic rest
    set rest
    return String.ofList text
  | '\'' :: rest =>
    let (text, rest) ← Text.literal rest
    set rest
    return String.ofList text
  | cs =>
    let text := cs.takeWhile isBareKeyPart
    if text.isEmpty then failure
    set (cs.dropWhile isBareKeyPart)
    return String.ofList text

/-- The parts of a key, at most the given number, with blanks around them. -/
def keyUpTo : Nat → Reader (List String)
  | 0 => failure
  | n + 1 => do
    blanks
    let first ← simpleKey
    blanks
    if (← peek) = some '.' then
      symbol '.'
      return first :: (← keyUpTo n)
    else return [first]

def key : Reader (List String) := keyUpTo nestingLimit

def string : Reader Value := do
  let (text, rest) ←
    match ← get with
    | '"' :: '"' :: '"' :: rest => liftM (Text.longBasic (Text.skipFirstLineEnd rest))
    | '"' :: rest => liftM (Text.basic rest)
    | '\'' :: '\'' :: '\'' :: rest => liftM (Text.longLiteral (Text.skipFirstLineEnd rest))
    | '\'' :: rest => liftM (Text.literal rest)
    | _ => failure
  set rest
  return .string (String.ofList text)

/-- Takes a word if it stands at the front. -/
def word (text : List Char) : Reader Bool := do
  let cs ← get
  if text.isPrefixOf cs then
    set (cs.drop text.length)
    return true
  else return false

/-- The items of an array up to its closing bracket. -/
def items (item : Reader Value) : Nat → Reader (List Value)
  | 0 => failure
  | n + 1 => do
    trivia (← get).length
    if (← peek) = some ']' then
      symbol ']'
      return []
    else
      let first ← item
      trivia (← get).length
      if (← peek) = some ',' then
        symbol ','
        return first :: (← items item n)
      else
        symbol ']'
        return [first]

/-- A key, a sign of equality and a value. -/
def assignment (value : Reader Value) : Reader (List String × Value) := do
  let path ← key
  symbol '='
  blanks
  return (path, ← value)

/-- The assignments between braces up to the closing one. -/
def assignments (value : Reader Value) : Nat → Reader (List (List String × Value))
  | 0 => failure
  | n + 1 => do
    let first ← assignment value
    blanks
    if (← peek) = some ',' then
      symbol ','
      return first :: (← assignments value n)
    else
      symbol '}'
      return [first]

/-- A value; `nested` reads the values inside brackets, if another one may be opened. -/
def valueAround (nested : Option (Reader Value)) : Reader Value := do
  match ← peek, nested with
  | some '"', _ => string
  | some '\'', _ => string
  | some '[', some item =>
    symbol '['
    return .array (← items item ((← get).length + 1))
  | some '{', some item =>
    symbol '{'
    blanks
    if (← peek) = some '}' then
      symbol '}'
      return .table .braces []
    else
      let found ← assignments item (← get).length
      return .table .braces (← liftM (Entries.assignAll [] found))
  | _, _ =>
    if ← word "true".toList then return .boolean true
    else if ← word "false".toList then return .boolean false
    else
      let (text, rest) ← liftM (Scalar.read? (← get))
      set rest
      return .scalar (String.ofList text)

def value : Nat → Reader Value
  | 0 => valueAround none
  | depth + 1 => valueAround (some (value depth))

/-- A header, up to the end of its line: the section that it begins. -/
def header : Reader Entries.Section := do
  symbol '['
  let repeated ← word ['[']
  let path ← key
  symbol ']'
  if repeated then symbol ']'
  restOfLine
  return ⟨path, repeated, []⟩

/-- The sections of a text of at most so many lines, given the one that has been begun. -/
def sections : Nat → Entries.Section → Reader (List Entries.Section)
  | 0, _ => failure
  | n + 1, current => do
    blanks
    match ← peek with
    | none => return [current]
    | some '#' =>
      comment
      lineEnd
      sections n current
    | some '\n' | some '\r' =>
      lineEnd
      sections n current
    | some '[' =>
      let next ← header
      return current :: (← sections n next)
    | some _ =>
      let found ← assignment (value nestingLimit)
      restOfLine
      sections n { current with assignments := current.assignments ++ [found] }

end Reader

/-- The table of a list of sections, the first of which has no header. -/
def tableOf? : List Entries.Section → Option Entries
  | [] => none
  | first :: rest => do
    let entries ← Entries.assignAll [] first.assignments
    rest.foldlM (fun entries part => Entries.addSection part part.path entries) entries

/-- A byte order mark at the front of a text is no part of it. -/
def withoutMark (cs : List Char) : List Char :=
  match cs with
  | '\uFEFF' :: rest => rest
  | _ => cs

/-- The table that a text stands for. -/
def read? (text : String) : Option Entries := do
  let cs := withoutMark text.toList
  let (sections, _) ← Reader.sections (cs.length + 1) ⟨[], false, []⟩ cs
  tableOf? sections

end PersistedDocuments.Toml
