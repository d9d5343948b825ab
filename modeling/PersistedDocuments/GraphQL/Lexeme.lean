import PersistedDocuments.GraphQL.Syntax
import PersistedDocuments.GraphQL.Token

/-!
# Lexemes

The tokens of a text with their places. Space, commas, line ends, byte order marks and comments
separate tokens and are otherwise ignored; they only move the place. The scan ends where the text
ends or where no token can be read.
-/

namespace PersistedDocuments.GraphQL

structure Lexeme where
  token : Token
  pos : Pos

/-- The result of a scan: the lexemes, the place where it stopped, and whether the text ended
there. -/
structure Scan where
  lexemes : List Lexeme
  stop : Pos
  complete : Bool

namespace Pos

def start : Pos := ⟨1, 1⟩

/-- The place `n` columns further. -/
def right (pos : Pos) (n : Nat) : Pos := ⟨pos.line, pos.column + n⟩

/-- The start of the next line. -/
def nextLine (pos : Pos) : Pos := ⟨pos.line + 1, 1⟩

/-- The place behind a token's text. -/
def after (pos : Pos) (text : List Char) : Pos :=
  text.foldl (fun pos c => if c = '\n' then pos.nextLine else pos.right 1) pos

end Pos

/-- Skips ignored characters; `comment` tells whether the text begins inside a comment. A comment
moves the place only by its end. -/
def skipIgnored (comment : Bool) (pos : Pos) : List Char → Pos × List Char
  | [] => (pos, [])
  | c :: cs =>
    if comment then
      if c = '\n' || c = '\r' then skipIgnored false pos.nextLine cs else skipIgnored true pos cs
    else if c = ' ' || c = ',' then skipIgnored false (pos.right 1) cs
    else if c = '\t' then skipIgnored false (pos.right 8) cs
    else if c = '\n' then skipIgnored false pos.nextLine cs
    else if c = '\r' || c = '\uFEFF' then skipIgnored false pos cs
    else if c = '#' then skipIgnored true pos cs
    else (pos, c :: cs)

theorem length_skipIgnored_le (comment : Bool) (pos : Pos) (cs : List Char) :
    (skipIgnored comment pos cs).2.length ≤ cs.length := by
  fun_induction skipIgnored comment pos cs <;> simp_all <;> omega

/-- The lexemes of a text that begins at the given place. -/
def scan (pos : Pos) (cs : List Char) : Scan :=
  match _skipped : skipIgnored false pos cs with
  | (here, []) => ⟨[], here, true⟩
  | (here, c :: rest) =>
    match _found : Token.read? (c :: rest) with
    | none => ⟨[], here, false⟩
    | some (token, text, behind) =>
      let tail := scan (here.after text) behind
      ⟨⟨token, here⟩ :: tail.lexemes, tail.stop, tail.complete⟩
termination_by cs.length
decreasing_by
  have shorter := Token.length_rest_lt _found
  have notLonger := length_skipIgnored_le false pos cs
  rw [_skipped] at notLonger
  exact Nat.lt_of_lt_of_le shorter notLonger

end PersistedDocuments.GraphQL
