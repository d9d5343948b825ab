/-!
# White space

The characters with the Unicode property `White_Space`. Blank texts, the indentation of block
strings and the gap between a literal's tag and its body are all measured with this class.
-/

namespace PersistedDocuments.Text

/-- Ranges of code points with the property `White_Space`, in increasing order. -/
def blankRanges : List (Nat × Nat) :=
  [(0x09, 0x0D), (0x20, 0x20), (0x85, 0x85), (0xA0, 0xA0), (0x1680, 0x1680), (0x2000, 0x200A),
    (0x2028, 0x2029), (0x202F, 0x202F), (0x205F, 0x205F), (0x3000, 0x3000)]

/-- A character with the property `White_Space`. -/
def isBlank (c : Char) : Bool :=
  blankRanges.any fun (low, high) => low ≤ c.toNat && c.toNat ≤ high

/-- A text without any character that is not white space. -/
def allBlank (cs : List Char) : Bool := cs.all isBlank

end PersistedDocuments.Text
