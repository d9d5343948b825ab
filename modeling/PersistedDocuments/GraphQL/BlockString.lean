import PersistedDocuments.Text.Blank
import PersistedDocuments.Text.Lines
import PersistedDocuments.GraphQL.QuotedString

/-!
# Block strings

Strings between triple quotes. Reading takes away the indentation that the lines have in common and
the blank lines at both ends; writing indents every line that is not blank.
-/

namespace PersistedDocuments.GraphQL.BlockString

open Text

/-- Three quotes. -/
def fence : List Char := ['"', '"', '"']

/-- What stands between opening triple quotes and the next triple quotes that no backslash precedes,
and the text behind those. `escaped` tells whether a backslash stands before the text. -/
def body? (escaped : Bool) : List Char → Option (List Char × List Char)
  | '"' :: '"' :: '"' :: rest =>
    if escaped then (body? false rest).map fun (body, rest) => (fence ++ body, rest)
    else some ([], rest)
  | c :: rest => (body? (c = '\\') rest).map fun (body, rest) => (c :: body, rest)
  | [] => none

/-- Bytes of white space that a line begins with. -/
def indentation (line : List Char) : Nat := utf8Size (line.takeWhile isBlank)

/-- The line without its first `n` bytes, if these do not end inside a character. -/
def dropBytes? : Nat → List Char → Option (List Char)
  | 0, line => some line
  | _ + 1, [] => none
  | n + 1, c :: line =>
    if c.utf8Size ≤ n + 1 then dropBytes? (n + 1 - c.utf8Size) line else none

/-- Takes the common indentation from a line that is long enough to have it. -/
def unindent? (common : Option Nat) (line : List Char) : Option (List Char) :=
  match common with
  | some n => if n ≤ utf8Size line then dropBytes? n line else some line
  | none => some line

/-- Triple quotes that a backslash precedes lose the backslash. -/
def unescape : List Char → List Char
  | [] => []
  | '\\' :: '"' :: '"' :: '"' :: rest => fence ++ unescape rest
  | c :: rest => c :: unescape rest

/-- The lines without the blank ones at their end. -/
def trimEnd (lines : List (List Char)) : List (List Char) :=
  (lines.reverse.dropWhile allBlank).reverse

/-- The lines without the blank ones at both ends. -/
def trimLines (lines : List (List Char)) : List (List Char) := trimEnd (lines.dropWhile allBlank)

/-- The text that the body of a block string stands for. The first line keeps its indentation and
does not count for the common one. That is counted in bytes, and where it ends inside a character of
a line, as it can between blanks of different sizes, the body stands for no text. -/
def decode? (body : List Char) : Option (List Char) :=
  match lines body with
  | [] => some []
  | first :: rest => do
    let common := ((rest.filter fun line => !allBlank line).map indentation).min?
    let (uncut, given) := if allBlank first then ([], trimLines rest) else ([first], trimEnd rest)
    let cut ← given.mapM (unindent? common)
    return joinLines ((uncut ++ cut).map unescape)

/-- Triple quotes are written with a backslash before them. -/
def escape : List Char → List Char
  | [] => []
  | '"' :: '"' :: '"' :: rest => '\\' :: fence ++ escape rest
  | c :: rest => c :: escape rest

/-- A text with a line feed in which no character needs an escape. -/
def suits (cs : List Char) : Bool :=
  cs.contains '\n' &&
    cs.all fun c => c = '\n' || c = '\r' || c = '\t' || QuotedString.isPlain c

def blanks (n : Nat) : List Char := List.replicate n ' '

/-- A line of a block string whose closing quotes stand at the given indentation. -/
def encodeLine (indent : Nat) (line : List Char) : List Char :=
  (if allBlank line then [] else blanks (indent + 2) ++ escape line) ++ ['\n']

/-- The text between triple quotes on lines of their own. -/
def encode (indent : Nat) (cs : List Char) : List Char :=
  fence ++ '\n' :: (lines cs).flatMap (encodeLine indent) ++ blanks indent ++ fence

/-- What is dropped is a beginning of the line with the given size. -/
theorem dropBytes?_eq_some {n : Nat} {line rest : List Char} :
    dropBytes? n line = some rest ↔ ∃ front, line = front ++ rest ∧ utf8Size front = n := by
  fun_induction dropBytes? n line with
  | case1 line =>
    constructor
    · rintro ⟨rfl⟩
      exact ⟨[], rfl, rfl⟩
    · rintro ⟨front, rfl, empty⟩
      rw [utf8Size_eq_zero.1 empty, List.nil_append]
  | case2 n =>
    refine iff_of_false nofun ?_
    rintro ⟨front, same, size⟩
    rw [(List.append_eq_nil_iff.1 same.symm).1] at size
    cases size
  | case3 n c line fits ih =>
    rw [ih]
    constructor
    · rintro ⟨front, rfl, size⟩
      refine ⟨c :: front, rfl, ?_⟩
      rw [utf8Size, size, Nat.add_sub_cancel' fits]
    · rintro ⟨front, same, size⟩
      cases front with
      | nil => cases size
      | cons d front =>
        obtain ⟨rfl, rfl⟩ := List.cons.inj same
        rw [utf8Size] at size
        exact ⟨front, rfl, by omega⟩
  | case4 n c line exceeds =>
    refine iff_of_false nofun ?_
    rintro ⟨front, same, size⟩
    cases front with
    | nil => cases size
    | cons d front =>
      obtain ⟨rfl, _⟩ := List.cons.inj same
      rw [utf8Size] at size
      omega

theorem body?_eq_some {escaped : Bool} {cs body rest : List Char}
    (h : body? escaped cs = some (body, rest)) : cs = body ++ fence ++ rest := by
  fun_induction body? escaped cs generalizing body rest with
  | case1 cs ih =>
    obtain ⟨⟨inner, outer⟩, found, same⟩ := Option.map_eq_some_iff.1 h
    obtain ⟨rfl, rfl⟩ := Prod.mk.injEq .. ▸ same
    simp [fence, ih found]
  | case2 => simp_all [fence]
  | case3 escaped c cs _ ih =>
    obtain ⟨⟨inner, outer⟩, found, same⟩ := Option.map_eq_some_iff.1 h
    obtain ⟨rfl, rfl⟩ := Prod.mk.injEq .. ▸ same
    simp [ih found]
  | case4 => simp at h

end PersistedDocuments.GraphQL.BlockString
