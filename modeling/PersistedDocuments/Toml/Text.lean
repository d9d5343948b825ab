/-!
# Strings in TOML

Strings stand in quotes or apostrophes, on one line or, behind three of them, on several. Each
reader starts behind the opening and tells what stands behind the closing.
-/

namespace PersistedDocuments.Toml.Text

/-- A character that may stand in strings and comments: no control character but the tab. -/
def isPlain (c : Char) : Bool := c = '\t' || (decide (0x20 ≤ c.toNat) && c.toNat ≠ 0x7F)

def isBlank (c : Char) : Bool := c = ' ' || c = '\t'

def hexValue? (c : Char) : Option Nat :=
  if '0' ≤ c && c ≤ '9' then some (c.toNat - '0'.toNat)
  else if 'a' ≤ c && c ≤ 'f' then some (c.toNat - 'a'.toNat + 10)
  else if 'A' ≤ c && c ≤ 'F' then some (c.toNat - 'A'.toNat + 10)
  else none

/-- The character with the code that hexadecimal digits stand for. -/
def coded? (digits : List Char) : Option Char := do
  let values ← digits.mapM hexValue?
  let n := values.foldl (fun n digit => 16 * n + digit) 0
  if n.isValidChar then some (Char.ofNat n) else none

/-- The character behind a backslash, and the text behind its code. -/
def escaped? : List Char → Option (Char × List Char)
  | 'b' :: cs => some ('\x08', cs)
  | 't' :: cs => some ('\t', cs)
  | 'n' :: cs => some ('\n', cs)
  | 'f' :: cs => some ('\x0c', cs)
  | 'r' :: cs => some ('\r', cs)
  | '"' :: cs => some ('"', cs)
  | '\\' :: cs => some ('\\', cs)
  | 'u' :: a :: b :: c :: d :: cs => (coded? [a, b, c, d]).map (·, cs)
  | 'U' :: a :: b :: c :: d :: e :: f :: g :: h :: cs =>
    (coded? [a, b, c, d, e, f, g, h]).map (·, cs)
  | _ => none

theorem length_of_escaped? {cs rest : List Char} {c : Char} (h : escaped? cs = some (c, rest)) :
    rest.length < cs.length := by
  unfold escaped? at h
  split at h
  case h_8 | h_9 =>
    obtain ⟨_, _, same⟩ := Option.map_eq_some_iff.1 h
    simp only [Prod.mk.injEq] at same
    simp only [← same.2, List.length_cons]
    omega
  all_goals simp_all

/-- A line end, and the text behind it. -/
def lineEnd? : List Char → Option (List Char)
  | '\n' :: cs => some cs
  | '\r' :: '\n' :: cs => some cs
  | _ => none

/-- The text behind blanks and line ends. -/
def skipLines : List Char → List Char
  | '\r' :: '\n' :: cs => skipLines cs
  | c :: cs => if isBlank c || c = '\n' then skipLines cs else c :: cs
  | [] => []

theorem length_skipLines_le (cs : List Char) : (skipLines cs).length ≤ cs.length := by
  fun_induction skipLines cs <;> simp_all <;> omega

theorem length_of_lineEnd? {cs rest : List Char} (h : lineEnd? cs = some rest) :
    rest.length < cs.length := by
  unfold lineEnd? at h
  split at h <;> cases h <;> grind

/-- A string in quotes. -/
def basic (cs : List Char) : Option (List Char × List Char) :=
  match cs with
  | [] => none
  | '"' :: rest => some ([], rest)
  | '\\' :: rest =>
    match _found : escaped? rest with
    | none => none
    | some (c, rest) => (basic rest).map fun (text, rest) => (c :: text, rest)
  | c :: rest =>
    if isPlain c then (basic rest).map fun (text, rest) => (c :: text, rest) else none
termination_by cs.length
decreasing_by
  · have := length_of_escaped? _found
    simp only [List.length_cons]
    omega
  · simp

/-- A string in apostrophes, which knows no escapes. -/
def literal : List Char → Option (List Char × List Char)
  | [] => none
  | '\'' :: rest => some ([], rest)
  | c :: rest =>
    if isPlain c then (literal rest).map fun (text, rest) => (c :: text, rest) else none

/-- Behind three closing marks up to two more of them, which belong to the text. -/
def furtherMarks (mark : Char) : List Char → List Char × List Char
  | a :: b :: rest =>
    if a = mark then if b = mark then ([a, b], rest) else ([a], b :: rest) else ([], a :: b :: rest)
  | [a] => if a = mark then ([a], []) else ([], [a])
  | [] => ([], [])

/-- Behind a backslash: the text from the next word on, if the line ends first. -/
def continued? (cs : List Char) : Option (List Char) :=
  (lineEnd? (cs.dropWhile isBlank)).map skipLines

theorem length_of_continued? {cs rest : List Char} (h : continued? cs = some rest) :
    rest.length < cs.length := by
  obtain ⟨behind, found, rfl⟩ := Option.map_eq_some_iff.1 h
  have first := length_of_lineEnd? found
  have second := length_skipLines_le behind
  have third := (List.dropWhile_sublist (l := cs) isBlank).length_le
  omega

/-- A string on several lines in triple quotes. -/
def longBasic (cs : List Char) : Option (List Char × List Char) :=
  match cs with
  | [] => none
  | '"' :: '"' :: '"' :: rest => some (furtherMarks '"' rest)
  | '\r' :: '\n' :: rest => (longBasic rest).map fun (text, rest) => ('\n' :: text, rest)
  | '\\' :: rest =>
    match _folded : continued? rest with
    | some rest => longBasic rest
    | none =>
      match _found : escaped? rest with
      | none => none
      | some (c, rest) => (longBasic rest).map fun (text, rest) => (c :: text, rest)
  | c :: rest =>
    if isPlain c || c = '\n' then (longBasic rest).map fun (text, rest) => (c :: text, rest)
    else none
termination_by cs.length
decreasing_by
  · simp only [List.length_cons]
    omega
  · have := length_of_continued? _folded
    simp only [List.length_cons]
    omega
  · have := length_of_escaped? _found
    simp only [List.length_cons]
    omega
  · simp

/-- A string on several lines in triple apostrophes. -/
def longLiteral : List Char → Option (List Char × List Char)
  | [] => none
  | '\'' :: '\'' :: '\'' :: rest => some (furtherMarks '\'' rest)
  | '\r' :: '\n' :: rest => (longLiteral rest).map fun (text, rest) => ('\n' :: text, rest)
  | c :: rest =>
    if isPlain c || c = '\n' then (longLiteral rest).map fun (text, rest) => (c :: text, rest)
    else none

/-- A string on several lines does not begin with the line end behind its opening. -/
def skipFirstLineEnd (cs : List Char) : List Char := (lineEnd? cs).getD cs

end PersistedDocuments.Toml.Text
