/-!
# Lines of a text

A line ends at a line feed, or at a carriage return followed by one; the end belongs to no line. A
text that ends in a line feed has no further, empty line behind it.
-/

namespace PersistedDocuments.Text

/-- The lines of a text, without their ends. -/
def lines : List Char → List (List Char)
  | [] => []
  | '\n' :: cs => [] :: lines cs
  | '\r' :: '\n' :: cs => [] :: lines cs
  | c :: cs =>
    match lines cs with
    | [] => [[c]]
    | line :: rest => (c :: line) :: rest

/-- The texts with a line feed between each two neighbours. -/
def joinLines : List (List Char) → List Char
  | [] => []
  | [line] => line
  | line :: next :: rest => line ++ '\n' :: joinLines (next :: rest)

/-- Number of bytes of the text in UTF-8. -/
def utf8Size : List Char → Nat
  | [] => 0
  | c :: cs => c.utf8Size + utf8Size cs

theorem lines_cons_lineFeed (cs : List Char) : lines ('\n' :: cs) = [] :: lines cs := by
  simp [lines]

theorem utf8Size_eq_zero {cs : List Char} : utf8Size cs = 0 ↔ cs = [] := by
  cases cs with
  | nil => simp [utf8Size]
  | cons c cs =>
    have positive := c.utf8Size_pos
    simp only [utf8Size, reduceCtorEq, iff_false]
    omega

end PersistedDocuments.Text
