import PersistedDocuments.Json.Number
import PersistedDocuments.Json.Quoted

/-!
# Written form of JSON values

Values are written without any blanks.
-/

namespace PersistedDocuments.Json

/-- Texts with a comma between each two neighbours. -/
def commas (texts : List (List Char)) : List Char := [','].intercalate texts

mutual
def Value.chars : Value → List Char
  | .null => "null".toList
  | .boolean true => "true".toList
  | .boolean false => "false".toList
  | .int value => Number.intChars value
  | .float value => Number.floatChars value
  | .string value => Quoted.encode value.toList
  | .array items => '[' :: commas (Values.texts items) ++ [']']
  | .object members => '{' :: commas (Members.texts members) ++ ['}']

def Values.texts : Values → List (List Char)
  | [] => []
  | value :: rest => value.chars :: Values.texts rest

def Members.texts : Members → List (List Char)
  | [] => []
  | (name, value) :: rest =>
    (Quoted.encode name.toList ++ ':' :: value.chars) :: Members.texts rest
end

/-- The text of a value. -/
def Value.write (value : Value) : String := String.ofList value.chars

end PersistedDocuments.Json
