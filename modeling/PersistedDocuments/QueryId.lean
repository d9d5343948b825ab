/-!
# Identifiers of persisted queries

Identifiers that this library assigns are numbers; other writers of manifests may use any text. Two
identifiers with the same text name the same query on the server.
-/

namespace PersistedDocuments

inductive QueryId where
  | number (n : Nat)
  | text (s : String)
  deriving DecidableEq

namespace QueryId

/-- Numbers from here on are no identifiers. -/
def limit : Nat := UInt64.size

/-- The text of an identifier: the digits of a number, a text itself. -/
def toText : QueryId → String
  | .number n => String.ofList (Nat.toDigits 10 n)
  | .text s => s

def number? : QueryId → Option Nat
  | .number n => some n
  | .text _ => none

@[simp] theorem toText_text (s : String) : (QueryId.text s).toText = s := rfl

/-- Different numbers have different texts. -/
theorem toText_number_inj {m n : Nat} : (number m).toText = (number n).toText ↔ m = n := by
  constructor
  · intro same
    have digits : Nat.toDigits 10 m = Nat.toDigits 10 n := by
      simpa [toText] using congrArg String.toList same
    simpa using congrArg (Nat.ofDigitChars 10 · 0) digits
  · rintro rfl
    rfl

end QueryId

end PersistedDocuments
