import PersistedDocuments.GraphQL.Grammar

/-!
# Phrases in parts

The longer phrases of the grammar as a first part and a continuation, in the form in which the laws
of readers are proved of them.
-/

namespace PersistedDocuments.GraphQL.Grammar

open Reader

/-- The head of a field with its first name and the one behind a colon, if there is one. -/
def headOfNames (pos : Pos) (first : String) (second : Option String) (arguments : Members)
    (directives : List Directive) : FieldHead :=
  match second with
  | some text => ⟨pos, some first, text, arguments, directives⟩
  | none => ⟨pos, none, first, arguments, directives⟩

/-- The selections below a field, if a brace opens them. -/
def fieldBelow (set : Reader SelectionSet) (pos : Pos) (head : FieldHead) : Reader Selection := do
  if ← sees .openBrace then
    let set ← set
    return .field head set.span set.items
  else return .field head ⟨pos, pos⟩ []

/-- A field whose names have been taken. -/
def fieldBehind (depth : Nat) (set : Reader SelectionSet) (pos : Pos) (first : String)
    (second : Option String) : Reader Selection := do
  let arguments ← arguments depth
  let directives ← directives depth
  fieldBelow set pos (headOfNames pos first second arguments directives)

theorem field_eq (depth : Nat) (set : Reader SelectionSet) (pos : Pos) (first : String) :
    field depth set pos first = (do
      if ← accept .colon then fieldBehind depth set pos first (← some <$> name)
      else fieldBehind depth set pos first none) :=
  rfl

/-- A type up to the mark behind it. -/
def typeUnmarked (nested : Option (Reader Ty)) : Reader Ty := do
  let lexeme ← next
  match lexeme.token, nested with
  | .name text, _ => return .named text
  | .punctuator .openBracket, some item => do
    let item ← item
    let _ ← symbol .closeBracket
    return .list item
  | _, _ => reject lexeme

/-- The mark behind a type that admits no null. -/
def typeMarked (type : Ty) : Reader Ty := do
  if ← accept .bang then return .nonNull type else return type

theorem typeAround_eq (nested : Option (Reader Ty)) :
    typeAround nested = (do typeMarked (← typeUnmarked nested)) := by
  simp only [typeAround, typeUnmarked, typeMarked, bind_assoc]
  congr 1
  funext lexeme
  rcases lexeme with ⟨token, pos⟩
  rcases token with punctuator | _ | _ | _ | _
  case punctuator => cases punctuator <;> cases nested <;> simp
  all_goals simp

/-- The default behind the type of a variable, and the variable. -/
def variableDefault (depth : Nat) (pos : Pos) (text : String) (type : Ty) : Reader Variable := do
  if ← accept .equals then return ⟨pos, text, type, ← some <$> value false depth⟩
  else return ⟨pos, text, type, none⟩

theorem variableDefinition_eq (depth : Nat) :
    variableDefinition depth = (do
      let pos ← symbol .dollar
      let text ← name
      let _ ← symbol .colon
      let type ← type depth
      variableDefault depth pos text type) := rfl

end PersistedDocuments.GraphQL.Grammar
