import PersistedDocuments.Json.Problem
import PersistedDocuments.Text.Lines

/-!
# Strings in JSON

Written strings escape quotes, backslashes and control characters and nothing else. Read strings are
the ones of the grammar, in which surrogates must come in pairs; a string that nobody asks for may
hold lone ones.
-/

namespace PersistedDocuments.Json.Quoted

/-- A character below U+0020, which may not stand in a string as it is. -/
def isControl (c : Char) : Bool := c.toNat < 0x20

def hexDigit (n : Nat) : Char := Nat.digitChar n

def encodeChar (c : Char) : List Char :=
  match c with
  | '"' => ['\\', '"']
  | '\\' => ['\\', '\\']
  | '\x08' => ['\\', 'b']
  | '\x0c' => ['\\', 'f']
  | '\n' => ['\\', 'n']
  | '\r' => ['\\', 'r']
  | '\t' => ['\\', 't']
  | c =>
    if isControl c then ['\\', 'u', '0', '0', hexDigit (c.toNat / 16), hexDigit (c.toNat % 16)]
    else [c]

/-- The text in quotes. -/
def encode (cs : List Char) : List Char := '"' :: cs.flatMap encodeChar ++ ['"']

def hexValue? (c : Char) : Option Nat :=
  if '0' ≤ c && c ≤ '9' then some (c.toNat - '0'.toNat)
  else if 'a' ≤ c && c ≤ 'f' then some (c.toNat - 'a'.toNat + 10)
  else if 'A' ≤ c && c ≤ 'F' then some (c.toNat - 'A'.toNat + 10)
  else none

/-- The number that the four hexadecimal digits at the front of a text stand for, and the text
behind them. A text of fewer than four bytes has ended too early. -/
def unit (cs : List Char) : Except Problem (Nat × List Char) :=
  match cs with
  | a :: b :: c :: d :: rest =>
    match hexValue? a, hexValue? b, hexValue? c, hexValue? d with
    | some a, some b, some c, some d => .ok (((a * 16 + b) * 16 + c) * 16 + d, rest)
    | _, _, _, _ => .error .malformed
  | _ => .error (if Text.utf8Size cs < 4 then .truncated else .malformed)

def isHighSurrogate (n : Nat) : Bool := 0xD800 ≤ n && n < 0xDC00

def isLowSurrogate (n : Nat) : Bool := 0xDC00 ≤ n && n < 0xE000

/-- The second half of a surrogate pair, written as another escape. -/
def lowSurrogate : List Char → Except Problem (Nat × List Char)
  | '\\' :: 'u' :: cs => do
    let (n, rest) ← unit cs
    if isLowSurrogate n then return (n, rest) else throw .malformed
  | [] => .error .truncated
  | ['\\'] => .error .truncated
  | _ => .error .malformed

/-- The character whose code stands at the front of a text, and the text behind it. -/
def codedChar (cs : List Char) : Except Problem (Char × List Char) := do
  let (n, rest) ← unit cs
  if isLowSurrogate n then throw .malformed
  else if isHighSurrogate n then
    let (low, rest) ← lowSurrogate rest
    return (Char.ofNat (0x10000 + (n - 0xD800) * 0x400 + (low - 0xDC00)), rest)
  else return (Char.ofNat n, rest)

/-- The character that a letter behind a backslash stands for. -/
def unescape? : Char → Option Char
  | '"' => some '"'
  | '\\' => some '\\'
  | '/' => some '/'
  | 'b' => some '\x08'
  | 'f' => some '\x0c'
  | 'n' => some '\n'
  | 'r' => some '\r'
  | 't' => some '\t'
  | _ => none

theorem length_of_unit {cs rest : List Char} {n : Nat} (h : unit cs = .ok (n, rest)) :
    rest.length < cs.length := by
  unfold unit at h
  split at h
  · split at h
    · simp only [Except.ok.injEq, Prod.mk.injEq] at h
      obtain ⟨_, rfl⟩ := h
      simp only [List.length_cons]
      omega
    · simp at h
  · simp at h

theorem length_of_lowSurrogate {cs rest : List Char} {n : Nat}
    (h : lowSurrogate cs = .ok (n, rest)) : rest.length < cs.length := by
  unfold lowSurrogate at h
  split at h
  · next inner =>
    cases found : unit inner with
    | error => simp [found, bind, Except.bind] at h
    | ok pair =>
      have shorter := length_of_unit found
      simp only [found, bind, Except.bind] at h
      split at h
      · simp only [pure, Except.pure, Except.ok.injEq, Prod.mk.injEq] at h
        obtain ⟨_, rfl⟩ := h
        simp only [List.length_cons]
        omega
      · simp [throw, throwThe, MonadExceptOf.throw] at h
  · simp at h
  · simp at h
  · simp at h

theorem length_of_codedChar {cs rest : List Char} {c : Char} (h : codedChar cs = .ok (c, rest)) :
    rest.length < cs.length := by
  unfold codedChar at h
  cases found : unit cs with
  | error => simp [found, bind, Except.bind] at h
  | ok pair =>
    have shorter := length_of_unit found
    simp only [found, bind, Except.bind] at h
    split at h
    · simp [throw, throwThe, MonadExceptOf.throw] at h
    · split at h
      · cases second : lowSurrogate pair.2 with
        | error => simp [second] at h
        | ok low =>
          have := length_of_lowSurrogate second
          simp only [second, pure, Except.pure, Except.ok.injEq, Prod.mk.injEq] at h
          obtain ⟨_, rfl⟩ := h
          omega
      · simp only [pure, Except.pure, Except.ok.injEq, Prod.mk.injEq] at h
        obtain ⟨_, rfl⟩ := h
        exact shorter

/-- A string's text, read behind its opening quote, and the text behind its closing one. -/
def decode (cs : List Char) : Except Problem (List Char × List Char) :=
  match cs with
  | [] => .error .truncated
  | '"' :: rest => .ok ([], rest)
  | ['\\'] => .error .truncated
  | '\\' :: 'u' :: coded =>
    match _found : codedChar coded with
    | .error problem => .error problem
    | .ok (c, rest) => do
      let (text, rest) ← decode rest
      return (c :: text, rest)
  | '\\' :: letter :: rest =>
    match unescape? letter with
    | none => .error .malformed
    | some c => do
      let (text, rest) ← decode rest
      return (c :: text, rest)
  | c :: rest =>
    if isControl c then .error .malformed
    else do
      let (text, rest) ← decode rest
      return (c :: text, rest)
termination_by cs.length
decreasing_by
  · have := length_of_codedChar _found
    simp only [List.length_cons]
    omega
  · simp only [List.length_cons]
    omega
  · simp

/-- The text behind a string that nobody asks for, read behind its opening quote. -/
def skip (cs : List Char) : Except Problem (List Char) :=
  match cs with
  | [] => .error .truncated
  | '"' :: rest => .ok rest
  | ['\\'] => .error .truncated
  | '\\' :: 'u' :: coded =>
    match _found : unit coded with
    | .error problem => .error problem
    | .ok (_, rest) => skip rest
  | '\\' :: letter :: rest =>
    match unescape? letter with
    | none => .error .malformed
    | some _ => skip rest
  | c :: rest => if isControl c then .error .malformed else skip rest
termination_by cs.length
decreasing_by
  · have := length_of_unit _found
    simp only [List.length_cons]
    omega
  · simp only [List.length_cons]
    omega
  · simp

end PersistedDocuments.Json.Quoted
