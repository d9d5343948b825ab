/-!
# JSON values

Numbers are integers, where they are written without fraction and exponent and fit 64 bits, and
doubles otherwise. The members of an object keep their order.
-/

namespace PersistedDocuments.Json

inductive Value where
  | null
  | boolean (value : Bool)
  | int (value : Int)
  | float (value : Float)
  | string (value : String)
  | array (items : List Value)
  | object (members : List (String × Value))

abbrev Values := List Value

abbrev Members := List (String × Value)

namespace Members

/-- The value of the first member with the given name. -/
def get? (members : Members) (name : String) : Option Value := members.lookup name

/-- Sets the member with the given name in its place, or adds it at the end. -/
def set (name : String) (value : Value) : Members → Members
  | [] => [(name, value)]
  | (other, old) :: rest =>
    if other = name then (name, value) :: rest else (other, old) :: set name value rest

/-- Members of which none has the name of an earlier one: a later one with the same name sets the
value in the place of the first. -/
def ofList (members : List (String × Value)) : Members :=
  members.foldl (fun object (name, value) => set name value object) []

end Members

namespace Value

/-- The value of an object's member. -/
def get? (value : Value) (name : String) : Option Value :=
  match value with
  | .object members => Members.get? members name
  | _ => none

end Value

end PersistedDocuments.Json
