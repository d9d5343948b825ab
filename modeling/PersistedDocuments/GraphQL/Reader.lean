import PersistedDocuments.GraphQL.Lexeme

/-!
# Readers of lexemes

A reader takes lexemes from the front of a list and decides by the next token alone what to do. It
stops at the first lexeme that does not fit, or at the end of the list, and it breaks down at a torn
string whose text it needs.
-/

namespace PersistedDocuments.GraphQL

/-- Why reading stopped: a lexeme that does not fit, the end of the lexemes, or a torn string. -/
inductive Mismatch where
  | lexeme (pos : Pos)
  | ending
  | breakdown

abbrev Reader := StateT (List Lexeme) (Except Mismatch)

namespace Reader

variable {α : Type}

/-- The next token, which stays where it is. -/
def peek : Reader (Option Token) := fun lexemes => .ok (lexemes.head?.map Lexeme.token, lexemes)

/-- Takes the next lexeme. -/
def next : Reader Lexeme
  | [] => .error .ending
  | lexeme :: rest => .ok (lexeme, rest)

/-- Stops at a lexeme that has been taken. -/
def reject (lexeme : Lexeme) : Reader α := fun _ => .error (.lexeme lexeme.pos)

/-- Stops at a torn string that has been taken for its text. -/
def breakDown : Reader α := fun _ => .error .breakdown

/-- Takes the given token and tells where it stands. -/
def expect (token : Token) : Reader Pos := do
  let lexeme ← next
  if lexeme.token = token then return lexeme.pos else reject lexeme

/-- Takes the given punctuator and tells where it stands. -/
def symbol (symbol : Punctuator) : Reader Pos := expect (.punctuator symbol)

/-- Whether the next token is the given punctuator. -/
def sees (symbol : Punctuator) : Reader Bool := do return (← peek) = some (.punctuator symbol)

/-- Takes the given punctuator if it is the next token, and tells whether it was. -/
def accept (symbol : Punctuator) : Reader Bool := do
  if ← sees symbol then
    let _ ← next
    return true
  else return false

/-- Takes a name. -/
def name : Reader String := do
  let lexeme ← next
  match lexeme.token with
  | .name text => return text
  | _ => reject lexeme

/-- Takes a name if the next token is one. -/
def name? : Reader (Option String) := do
  match ← peek with
  | some (.name _) => some <$> name
  | _ => return none

/-- At most one item for each lexeme of the bound, as long as the next token passes the test. -/
def repeatWithin (more : Token → Bool) (item : Reader α) : List Lexeme → Reader (List α)
  | [] => return []
  | _ :: bound => do
    match ← peek with
    | some token =>
      if more token then
        let first ← item
        let rest ← repeatWithin more item bound
        return first :: rest
      else return []
    | none => return []

/-- Items as long as the next token passes the test. Every item takes a lexeme, so there are no more
items than lexemes. -/
def many (more : Token → Bool) (item : Reader α) : Reader (List α) := fun lexemes =>
  repeatWithin more item lexemes lexemes

/-- One item at least, and further ones as long as the next token passes the test. -/
def many1 (more : Token → Bool) (item : Reader α) : Reader (List α) := do
  let first ← item
  let rest ← many more item
  return first :: rest

/-- A test that every token but the given punctuator passes. -/
def isNot (symbol : Punctuator) (token : Token) : Bool := token ≠ .punctuator symbol

end Reader

end PersistedDocuments.GraphQL
