/-!
# TOML values

Tables remember how they came about, because that decides whether a later line may add to them. A
number, date or time is kept as its text: nothing in this library asks for its value.
-/

namespace PersistedDocuments.Toml

/-- How a table came about: between braces, by dotted keys, by a header of its own, or only as a
part of another header. -/
inductive Origin where
  | braces
  | dotted
  | header
  | implied
  deriving DecidableEq

inductive Value where
  | string (text : String)
  | boolean (value : Bool)
  | scalar (text : String)
  | array (items : List Value)
  | table (origin : Origin) (entries : List (String × Value))
  /-- Tables under a header between double brackets. -/
  | tables (items : List (List (String × Value)))

abbrev Entries := List (String × Value)

namespace Entries

/-- Puts a value in the place of the one under a key. -/
def replace (entries : Entries) (key : String) (value : Value) : Entries :=
  entries.map fun (other, old) => if other = key then (other, value) else (other, old)

/-- Sets the value under a key that is not in use. A dotted key leads through tables that dotted
keys made. -/
def assign (value : Value) : List String → Entries → Option Entries
  | [], _ => none
  | [key], entries =>
    match entries.lookup key with
    | none => some (entries ++ [(key, value)])
    | some _ => none
  | key :: path, entries =>
    match entries.lookup key with
    | none => do return entries ++ [(key, .table .dotted (← assign value path []))]
    | some (.table .dotted inner) => do
      return entries.replace key (.table .dotted (← assign value path inner))
    | some _ => none

/-- Assignments one after the other. -/
def assignAll (entries : Entries) (assignments : List (List String × Value)) : Option Entries :=
  assignments.foldlM (fun entries (path, value) => assign value path entries) entries

/-- What a header and the lines below it add. -/
structure Section where
  path : List String
  /-- Whether the header stands between double brackets. -/
  repeated : Bool
  assignments : List (List String × Value)

/-- Adds a section whose path from here on is given. A table has one header at most. -/
def addSection (part : Section) : List String → Entries → Option Entries
  | [], _ => none
  | [key], entries =>
    match part.repeated, entries.lookup key with
    | false, none => do
      return entries ++ [(key, .table .header (← assignAll [] part.assignments))]
    | false, some (.table .implied inner) => do
      return entries.replace key (.table .header (← assignAll inner part.assignments))
    | true, none => do
      return entries ++ [(key, .tables [← assignAll [] part.assignments])]
    | true, some (.tables items) => do
      return entries.replace key (.tables (items ++ [← assignAll [] part.assignments]))
    | _, _ => none
  | key :: path, entries =>
    match entries.lookup key with
    | none => do return entries ++ [(key, .table .implied (← addSection part path []))]
    | some (.table .braces _) => none
    | some (.table origin inner) => do
      return entries.replace key (.table origin (← addSection part path inner))
    | some (.tables items) =>
      match items.getLast? with
      | some last => do
        return entries.replace key (.tables (items.dropLast ++ [← addSection part path last]))
      | none => none
    | some _ => none

end Entries

end PersistedDocuments.Toml
