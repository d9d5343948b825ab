import PersistedDocuments.Json.Number
import PersistedDocuments.Json.Quoted

/-!
# Reading JSON

A decoder takes characters from the front of a text and makes a value of a chosen shape of them in
one pass, so that the first problem from the left is the one reported: a value of the wrong shape
counts even if the text is broken behind it. Numbers that limit nesting say how many brackets may
still be opened.
-/

namespace PersistedDocuments.Json

abbrev Decoder := StateT (List Char) (Except Problem)

namespace Decoder

variable {α σ : Type}

/-- The most brackets that may be open at once. -/
def nestingLimit : Nat := 127

/-- The characters that may stand between the words of a text. -/
def isSpace (c : Char) : Bool := c = ' ' || c = '\n' || c = '\t' || c = '\r'

/-- The next character that is no space, which stays where it is. -/
def peek : Decoder (Option Char) := fun cs =>
  let rest := cs.dropWhile isSpace
  .ok (rest.head?, rest)

/-- Takes one character. -/
def drop : Decoder Unit := fun cs => .ok ((), cs.drop 1)

/-- Takes the characters of a word. -/
def word : List Char → Decoder Unit
  | [] => pure ()
  | c :: rest => do
    match ← get with
    | [] => throw .truncated
    | d :: cs =>
      if c = d then
        set cs
        word rest
      else throw .malformed

/-- Takes the given punctuation. -/
def symbol (c : Char) : Decoder Unit := do
  match ← peek with
  | none => throw .truncated
  | some d => if c = d then drop else throw .malformed

/-- The rest of a string whose opening quote has been taken. -/
def string : Decoder String := fun cs => do
  let (text, rest) ← Quoted.decode cs
  return (String.ofList text, rest)

/-- A value without brackets. -/
def scalar : Decoder Value := do
  match ← peek with
  | none => throw .truncated
  | some 'n' => word "null".toList; return .null
  | some 't' => word "true".toList; return .boolean true
  | some 'f' => word "false".toList; return .boolean false
  | some '"' => drop; .string <$> string
  | some c => if c = '-' || c.isDigit then Number.decode else throw .malformed

/-- Further items up to the closing bracket, each behind a comma, and no more of them than the bound
has characters. -/
def foldWithin (close : Char) (item : σ → Decoder σ) : List Char → σ → Decoder σ
  | [], _ => throw .truncated
  | _ :: bound, state => do
    match ← peek with
    | none => throw .truncated
    | some c =>
      if c = close then
        drop
        return state
      else if c = ',' then
        drop
        let state ← item state
        foldWithin close item bound state
      else throw .malformed

/-- Items with commas between them up to the closing bracket, behind the opening one. Every item but
the first takes a comma, so there are no more of them than characters. -/
def fold (close : Char) (item : σ → Decoder σ) (start : σ) : Decoder σ := do
  match ← peek with
  | none => throw .truncated
  | some c =>
    if c = close then
      drop
      return start
    else
      let state ← item start
      foldWithin close item (← get) state

/-- The name of a member. -/
def name : Decoder String := do
  symbol '"'
  string

/-- An array or object whose parts the given decoder reads, if another bracket may be opened; or a
value without brackets. -/
def valueAround (nested : Option (Decoder Value)) : Decoder Value := do
  match ← peek, nested with
  | some '[', some item =>
    drop
    let items ← fold ']' (fun items => do return items ++ [← item]) []
    return .array items
  | some '{', some item =>
    drop
    let members ← fold '}' (fun members => do
      let name ← name
      symbol ':'
      return Members.set name (← item) members) []
    return .object members
  | _, _ => scalar

/-- Any value. -/
def value : Nat → Decoder Value
  | 0 => valueAround none
  | depth + 1 => valueAround (some (value depth))

/-- A value without brackets that nobody asks for. -/
def skipScalar : Decoder Unit := do
  match ← peek with
  | none => throw .truncated
  | some 'n' => word "null".toList
  | some 't' => word "true".toList
  | some 'f' => word "false".toList
  | some '"' => drop; skipString
  | some c => if c = '-' || c.isDigit then skipNumber else throw .malformed
where
  skipString : Decoder Unit := fun cs => do return ((), ← Quoted.skip cs)
  skipNumber : Decoder Unit := fun cs => do return ((), ← Number.skip cs)

/-- A value that nobody asks for, with at most the given number of brackets open at once. -/
def skipUpTo : Nat → Decoder Unit
  | 0 => skipScalar
  | depth + 1 => do
    match ← peek with
    | some '[' =>
      drop
      fold ']' (fun _ => skipUpTo depth) ()
    | some '{' =>
      drop
      fold '}' (fun _ => do
        symbol '"'
        skipScalar.skipString
        symbol ':'
        skipUpTo depth) ()
    | _ => skipScalar

/-- A value that nobody asks for, nested as deeply as it likes. -/
def skip : Decoder Unit := do skipUpTo (← get).length

/-- Reports a value of the wrong shape. One without brackets is read first, and may turn out to be
broken. -/
def wrongShape : Decoder α := do
  match ← peek with
  | some '[' | some '{' => throw .mismatched
  | _ =>
    let _ ← scalar
    throw .mismatched

/-- A string. -/
def text : Decoder String := do
  match ← peek with
  | some '"' => drop; string
  | _ => wrongShape

/-- A value that may be null. -/
def orNull (item : Decoder α) : Decoder (Option α) := do
  match ← peek with
  | some 'n' => word "null".toList; return none
  | _ => some <$> item

/-- A part that must be there. -/
def require (part : Option α) : Decoder α :=
  match part with
  | some a => return a
  | none => throw .mismatched

/-- A member that must not have been there before: its value, read behind the colon. -/
def once (before : Option α) (item : Decoder α) : Decoder (Option α) := do
  if before.isSome then throw .mismatched
  symbol ':'
  some <$> item

/-- The item at a place of an array that has one for each part of a shape, if the array goes on. -/
def place (first : Bool) (item : Decoder α) : Decoder (Option α) := do
  match ← peek with
  | none => throw .truncated
  | some ']' => return none
  | some c =>
    if first then some <$> item
    else if c = ',' then
      drop
      some <$> item
    else throw .malformed

/-- What a whole text stands for. -/
def run (decoder : Decoder α) (s : String) : Except Problem α := do
  let (found, rest) ← decoder s.toList
  if (rest.dropWhile isSpace).isEmpty then return found else throw .malformed

end Decoder

/-- The value that a text stands for. -/
def Value.read (s : String) : Except Problem Value := (Decoder.value Decoder.nestingLimit).run s

end PersistedDocuments.Json
