/-!
# Values

What stands as an argument or as the default of a variable. Equality is the one of floating point
numbers where these are compared, so that the two zeros are equal.
-/

namespace PersistedDocuments.GraphQL

/-- An argument's value or a default. The members of an object have distinct names in increasing
order. -/
inductive Value where
  | variable (name : String)
  | int (value : Int)
  | float (value : Float)
  | string (value : String)
  | boolean (value : Bool)
  | null
  | enum (name : String)
  | list (items : List Value)
  | object (members : List (String × Value))

abbrev Values := List Value

/-- Names with their values: the arguments of a field or directive, the members of an object. -/
abbrev Members := List (String × Value)

mutual
def Value.beq : Value → Value → Bool
  | .variable name, .variable name' => name == name'
  | .int value, .int value' => value == value'
  | .float value, .float value' => value == value'
  | .string value, .string value' => value == value'
  | .boolean value, .boolean value' => value == value'
  | .null, .null => true
  | .enum name, .enum name' => name == name'
  | .list items, .list items' => Values.beq items items'
  | .object members, .object members' => Members.beq members members'
  | _, _ => false

def Values.beq : Values → Values → Bool
  | [], [] => true
  | value :: rest, value' :: rest' => value.beq value' && Values.beq rest rest'
  | _, _ => false

def Members.beq : Members → Members → Bool
  | [], [] => true
  | (name, value) :: rest, (name', value') :: rest' =>
    name == name' && value.beq value' && Members.beq rest rest'
  | _, _ => false
end

instance : BEq Value := ⟨Value.beq⟩

/-- Sets a member of an object whose members are in increasing order of their names. -/
def Members.set (name : String) (value : Value) : Members → Members
  | [] => [(name, value)]
  | (other, old) :: rest =>
    if name < other then (name, value) :: (other, old) :: rest
    else if name = other then (name, value) :: rest
    else (other, old) :: Members.set name value rest

/-- The object with the given members; of members with one name the last counts. -/
def Value.ofMembers (members : Members) : Value :=
  .object (members.foldl (fun object (name, value) => Members.set name value object) [])

end PersistedDocuments.GraphQL
