import PersistedDocuments.Proofs.GraphQL.Phrases

/-!
# Places do not matter

Readers decide by tokens alone; places only reach the trees that they build and the failures that
they report. So reading lexemes without their places gives the same tree without its places, or the
same failure, and what a text stands for is, up to places, a function of its tokens.
-/

namespace PersistedDocuments.GraphQL

/-- The lexeme without its place. -/
def Lexeme.erase (lexeme : Lexeme) : Lexeme := { lexeme with pos := .nowhere }

/-- The failure without its place. -/
def Mismatch.erase : Mismatch → Mismatch
  | .lexeme _ => .lexeme .nowhere
  | .ending => .ending
  | .breakdown => .breakdown

/-- Tokens as lexemes without places. -/
def lexemes (tokens : List Token) : List Lexeme := tokens.map fun token => ⟨token, .nowhere⟩

theorem map_erase_eq_lexemes (found : List Lexeme) :
    found.map Lexeme.erase = lexemes (found.map Lexeme.token) := by
  rw [lexemes, List.map_map]
  rfl

namespace Reader

variable {α β γ δ : Type}

/-- The outcome of a run without places, where `forget` takes them from the result. -/
def outcome (forget : α → β) :
    Except Mismatch (α × List Lexeme) → Except Mismatch (β × List Lexeme)
  | .ok (result, rest) => .ok (forget result, rest.map Lexeme.erase)
  | .error mismatch => .error mismatch.erase

/-- The second reader does to lexemes without places what the first does to the lexemes. -/
def Mirrors (forget : α → β) (reader : Reader α) (mirror : Reader β) : Prop :=
  ∀ found, mirror (found.map Lexeme.erase) = outcome forget (reader found)

/-! ## Combinators -/

namespace Mirrors

variable {forget : α → β} {forgetNext : γ → δ} {reader : Reader α} {mirror : Reader β}

theorem pure (result : α) : Mirrors forget (pure result) (pure (forget result)) := fun _ => rfl

theorem bind (first : Mirrors forget reader mirror) {next : α → Reader γ}
    {mirrorNext : β → Reader δ}
    (second : ∀ result, Mirrors forgetNext (next result) (mirrorNext (forget result))) :
    Mirrors forgetNext (reader >>= next) (mirror >>= mirrorNext) := by
  intro found
  have run := first found
  cases outcome : reader found with
  | error mismatch =>
      simp only [Bind.bind, StateT.bind, Except.bind, run, outcome]
      rfl
  | ok result =>
      simp only [Bind.bind, StateT.bind, Except.bind, run, outcome]
      exact second result.1 result.2

theorem map (first : Mirrors forget reader mirror) {change : α → γ} {mirrorChange : β → δ}
    (commutes : ∀ result, mirrorChange (forget result) = forgetNext (change result)) :
    Mirrors forgetNext (change <$> reader) (mirrorChange <$> mirror) := by
  intro found
  have run := first found
  cases outcome : reader found with
  | error mismatch =>
      simp only [Functor.map, StateT.map, Except.bind, run, outcome, Bind.bind]
      rfl
  | ok result =>
      simp only [Functor.map, StateT.map, Except.bind, run, outcome, Bind.bind, Pure.pure,
        Except.pure, Reader.outcome, commutes]

theorem some {reader : Reader α} (item : Mirrors (fun found => found) reader reader) :
    Mirrors (fun found => found) (some <$> reader) (some <$> reader) := item.map fun _ => rfl

end Mirrors

variable {forget : α → β} {item : Reader α} {mirrorItem : Reader β}

theorem mirrors_peek : Mirrors (fun token => token) peek peek := by
  intro found
  cases found with
  | nil => rfl
  | cons first rest => rfl

theorem mirrors_next : Mirrors Lexeme.erase next next := by
  intro found
  cases found with
  | nil => rfl
  | cons first rest => rfl

theorem mirrors_reject (lexeme : Lexeme) :
    Mirrors forget (reject lexeme) (reject lexeme.erase) := fun _ => rfl

theorem mirrors_breakDown : Mirrors forget (breakDown : Reader α) breakDown := fun _ => rfl

theorem mirrors_expect (token : Token) :
    Mirrors (fun _ => Pos.nowhere) (expect token) (expect token) := by
  apply mirrors_next.bind
  intro lexeme
  by_cases same : lexeme.token = token
  · rw [if_pos same, if_pos (show lexeme.erase.token = token from same)]
    exact .pure _
  · rw [if_neg same, if_neg (show lexeme.erase.token ≠ token from same)]
    exact mirrors_reject lexeme

theorem mirrors_symbol (punctuator : Punctuator) :
    Mirrors (fun _ => Pos.nowhere) (symbol punctuator) (symbol punctuator) :=
  mirrors_expect _

theorem mirrors_sees (punctuator : Punctuator) :
    Mirrors (fun seen => seen) (sees punctuator) (sees punctuator) :=
  mirrors_peek.bind fun _ => .pure _

theorem mirrors_accept (punctuator : Punctuator) :
    Mirrors (fun seen => seen) (accept punctuator) (accept punctuator) := by
  apply (mirrors_sees punctuator).bind
  intro seen
  cases seen with
  | false => exact .pure _
  | true => exact mirrors_next.bind fun _ => .pure _

theorem mirrors_name : Mirrors (fun text => text) name name := by
  apply mirrors_next.bind
  intro lexeme
  rcases lexeme with ⟨token, pos⟩
  cases token with
  | name text => exact .pure _
  | punctuator _ => exact mirrors_reject _
  | int _ => exact mirrors_reject _
  | float _ => exact mirrors_reject _
  | string _ => exact mirrors_reject _
  | torn => exact mirrors_reject _

theorem mirrors_name? : Mirrors (fun text => text) name? name? := by
  apply mirrors_peek.bind
  intro token
  rcases token with _ | _ | _ | _ | _ | _ | _
  case some.name text => exact mirrors_name.map fun _ => rfl
  all_goals exact .pure _

theorem mirrors_repeatWithin {more : Token → Bool} (each : Mirrors forget item mirrorItem)
    (bound : List Lexeme) :
    Mirrors (List.map forget) (repeatWithin more item bound)
      (repeatWithin more mirrorItem (bound.map Lexeme.erase)) := by
  induction bound with
  | nil => exact .pure _
  | cons _ bound ih =>
      apply mirrors_peek.bind
      intro token
      cases token with
      | none => exact .pure _
      | some token =>
          dsimp only
          split
          · exact each.bind fun _ => ih.bind fun _ => .pure _
          · exact .pure _

theorem mirrors_many {more : Token → Bool} (each : Mirrors forget item mirrorItem) :
    Mirrors (List.map forget) (many more item) (many more mirrorItem) :=
  fun found => mirrors_repeatWithin each found found

theorem mirrors_many1 {more : Token → Bool} (each : Mirrors forget item mirrorItem) :
    Mirrors (List.map forget) (many1 more item) (many1 more mirrorItem) :=
  each.bind fun _ => (mirrors_many each).bind fun _ => .pure _

end Reader

/-! ## Phrases -/

namespace Grammar

open Reader

variable {α β : Type} {forget : α → β}

theorem mirrors_bracketed {left right : Punctuator} {content : Nat → Reader α}
    {mirror : Nat → Reader β} (each : ∀ depth, Mirrors forget (content depth) (mirror depth))
    (depth : Nat) :
    Mirrors (fun found => (Span.nowhere, forget found.2)) (bracketed left right content depth)
      (bracketed left right mirror depth) := by
  cases depth with
  | zero => exact mirrors_next.bind mirrors_reject
  | succ depth =>
      exact (mirrors_symbol left).bind fun _ => (each depth).bind fun _ =>
        (mirrors_symbol right).bind fun _ => .pure _

theorem mirrors_member {value : Reader Value} (each : Mirrors (fun found => found) value value) :
    Mirrors (fun found => found) (member value) (member value) :=
  mirrors_name.bind fun _ => (mirrors_symbol .colon).bind fun _ => each.bind fun _ => .pure _

theorem mirrors_valueAround (dynamic : Bool) (nested : Option (Reader Value))
    (each : ∀ item, nested = some item → Mirrors (fun found => found) item item) :
    Mirrors (fun found => found) (valueAround dynamic nested) (valueAround dynamic nested) := by
  apply mirrors_next.bind
  intro lexeme
  rcases lexeme with ⟨token, pos⟩
  cases token with
  | name text => exact .pure _
  | int n => exact .pure _
  | float x => exact .pure _
  | string text => exact .pure _
  | torn => exact mirrors_breakDown
  | punctuator punctuator =>
      cases punctuator
      case dollar =>
        cases dynamic with
        | false => exact mirrors_reject _
        | true => exact mirrors_name.map fun _ => rfl
      case openBracket =>
        cases nested with
        | none => exact mirrors_reject _
        | some item =>
            apply (mirrors_many (each item rfl)).bind
            intro items
            rw [List.map_id']
            exact (mirrors_symbol _).bind fun _ => .pure _
      case openBrace =>
        cases nested with
        | none => exact mirrors_reject _
        | some item =>
            apply (mirrors_many (mirrors_member (each item rfl))).bind
            intro members
            rw [List.map_id']
            exact (mirrors_symbol _).bind fun _ => .pure _
      all_goals exact mirrors_reject _

theorem mirrors_value (dynamic : Bool) (depth : Nat) :
    Mirrors (fun found => found) (value dynamic depth) (value dynamic depth) := by
  induction depth with
  | zero => exact mirrors_valueAround dynamic none fun _ absent => (nomatch absent)
  | succ depth ih =>
      apply mirrors_valueAround dynamic _
      intro item same
      cases same
      exact ih

theorem mirrors_typeUnmarked (nested : Option (Reader Ty))
    (each : ∀ item, nested = some item → Mirrors (fun found => found) item item) :
    Mirrors (fun found => found) (typeUnmarked nested) (typeUnmarked nested) := by
  apply mirrors_next.bind
  intro lexeme
  rcases lexeme with ⟨token, pos⟩
  cases token with
  | name text => exact .pure _
  | punctuator punctuator =>
      cases punctuator
      case openBracket =>
        cases nested with
        | none => exact mirrors_reject _
        | some item => exact (each item rfl).bind fun _ => (mirrors_symbol _).bind fun _ => .pure _
      all_goals exact mirrors_reject _
  | int _ => exact mirrors_reject _
  | float _ => exact mirrors_reject _
  | string _ => exact mirrors_reject _
  | torn => exact mirrors_reject _

theorem mirrors_typeMarked (type : Ty) :
    Mirrors (fun found => found) (typeMarked type) (typeMarked type) := by
  apply (mirrors_accept _).bind
  intro marked
  cases marked with
  | false => exact .pure _
  | true => exact .pure _

theorem mirrors_typeAround (nested : Option (Reader Ty))
    (each : ∀ item, nested = some item → Mirrors (fun found => found) item item) :
    Mirrors (fun found => found) (typeAround nested) (typeAround nested) := by
  rw [typeAround_eq]
  exact (mirrors_typeUnmarked nested each).bind mirrors_typeMarked

theorem mirrors_type (depth : Nat) : Mirrors (fun found => found) (type depth) (type depth) := by
  induction depth with
  | zero => exact mirrors_typeAround none fun _ absent => (nomatch absent)
  | succ depth ih =>
      apply mirrors_typeAround _
      intro item same
      cases same
      exact ih

theorem mirrors_inParens {item : Nat → Reader α} {mirror : Nat → Reader β}
    (each : ∀ depth, Mirrors forget (item depth) (mirror depth)) (depth : Nat) :
    Mirrors (List.map forget) (inParens item depth) (inParens mirror depth) := by
  apply (mirrors_sees _).bind
  intro seen
  cases seen with
  | false => exact .pure _
  | true =>
      exact (mirrors_bracketed (fun depth => mirrors_many1 (each depth)) depth).bind fun _ =>
        .pure _

theorem mirrors_arguments (depth : Nat) :
    Mirrors (fun found => found) (arguments depth) (arguments depth) := by
  have each := mirrors_inParens (fun depth => mirrors_member (mirrors_value true depth)) depth
  rwa [show List.map (fun found : String × Value => found) = fun found => found from
    funext List.map_id'] at each

theorem mirrors_directive (depth : Nat) :
    Mirrors Directive.erase (directive depth) (directive depth) := by
  apply (mirrors_symbol _).bind
  intro _
  apply mirrors_name.bind
  intro _
  exact (mirrors_arguments depth).bind fun _ => .pure _

theorem mirrors_directives (depth : Nat) :
    Mirrors (List.map Directive.erase) (directives depth) (directives depth) :=
  mirrors_many (mirrors_directive depth)

theorem mirrors_variableDefinition (depth : Nat) :
    Mirrors Variable.erase (variableDefinition depth) (variableDefinition depth) := by
  rw [variableDefinition_eq]
  refine (mirrors_symbol _).bind fun _ => mirrors_name.bind fun text =>
    (mirrors_symbol _).bind fun _ => (mirrors_type depth).bind fun type =>
      (mirrors_accept _).bind fun given => ?_
  cases given with
  | false => exact .pure _
  | true => exact (mirrors_value false depth).some.bind fun _ => .pure _

theorem mirrors_fieldBehind {depth : Nat} {set : Reader SelectionSet}
    (below : Mirrors SelectionSet.erase set set) (pos : Pos) (first : String)
    (second : Option String) :
    Mirrors Selection.erase (fieldBehind depth set pos first second)
      (fieldBehind depth set .nowhere first second) := by
  refine (mirrors_arguments depth).bind fun arguments =>
    (mirrors_directives depth).bind fun directives => (mirrors_sees _).bind fun seen => ?_
  have head : headOfNames .nowhere first second arguments (directives.map Directive.erase) =
      (headOfNames pos first second arguments directives).erase := by
    cases second <;> rfl
  rw [head]
  cases seen with
  | false => exact .pure _
  | true => exact below.bind fun _ => .pure _

theorem mirrors_field {depth : Nat} {set : Reader SelectionSet}
    (below : Mirrors SelectionSet.erase set set) (pos : Pos) (first : String) :
    Mirrors Selection.erase (field depth set pos first) (field depth set .nowhere first) := by
  rw [field_eq, field_eq]
  apply (mirrors_accept _).bind
  intro renamed
  cases renamed with
  | false => exact mirrors_fieldBehind below pos first none
  | true => exact mirrors_name.some.bind fun _ => mirrors_fieldBehind below pos first _

theorem mirrors_inline {depth : Nat} {set : Reader SelectionSet}
    (below : Mirrors SelectionSet.erase set set) (pos : Pos) (condition : Option String) :
    Mirrors Selection.erase (inline depth set pos condition)
      (inline depth set .nowhere condition) :=
  (mirrors_directives depth).bind fun _ => below.bind fun _ => .pure _

theorem mirrors_spread {depth : Nat} {set : Reader SelectionSet}
    (below : Mirrors SelectionSet.erase set set) (pos : Pos) :
    Mirrors Selection.erase (spread depth set pos) (spread depth set .nowhere) := by
  apply mirrors_name?.bind
  intro text
  cases text with
  | none => exact mirrors_inline below pos none
  | some text =>
      split
      · exact mirrors_name.bind fun _ => mirrors_inline below pos _
      · exact (mirrors_directives depth).bind fun _ => .pure _
      · cases ‹some text = none›

theorem mirrors_selection {depth : Nat} {set : Reader SelectionSet}
    (below : Mirrors SelectionSet.erase set set) :
    Mirrors Selection.erase (selection depth set) (selection depth set) := by
  apply mirrors_next.bind
  intro lexeme
  rcases lexeme with ⟨token, pos⟩
  cases token with
  | name text => exact mirrors_field below pos text
  | punctuator punctuator =>
      cases punctuator
      case spread => exact mirrors_spread below pos
      all_goals exact mirrors_reject _
  | int _ => exact mirrors_reject _
  | float _ => exact mirrors_reject _
  | string _ => exact mirrors_reject _
  | torn => exact mirrors_reject _

theorem erase_items (items : Selections) : Selections.erase items = items.map Selection.erase := by
  induction items with
  | nil => rfl
  | cons first rest ih => rw [Selections.erase, ih, List.map_cons]

theorem mirrors_selectionSet (depth : Nat) :
    Mirrors SelectionSet.erase (selectionSet depth) (selectionSet depth) := by
  induction depth with
  | zero => exact mirrors_next.bind mirrors_reject
  | succ depth ih =>
      refine (mirrors_symbol _).bind fun first => (mirrors_many1 (mirrors_selection ih)).bind
        fun items => (mirrors_symbol _).bind fun last => ?_
      rw [← erase_items]
      exact .pure _

theorem mirrors_operation (pos : Pos) (kind : OperationKind) :
    Mirrors Operation.erase (operation pos kind) (operation .nowhere kind) := by
  apply mirrors_name?.bind
  intro _
  apply (mirrors_inParens mirrors_variableDefinition nestingLimit).bind
  intro _
  apply (mirrors_directives nestingLimit).bind
  intro _
  exact (mirrors_selectionSet nestingLimit).bind fun _ => .pure _

theorem mirrors_fragment (pos : Pos) :
    Mirrors Fragment.erase (fragment pos) (fragment .nowhere) := by
  apply mirrors_name.bind
  intro _
  apply (mirrors_expect _).bind
  intro _
  apply mirrors_name.bind
  intro _
  apply (mirrors_directives nestingLimit).bind
  intro _
  exact (mirrors_selectionSet nestingLimit).bind fun _ => .pure _

theorem mirrors_definition : Mirrors Definition.erase definition definition := by
  apply (mirrors_sees _).bind
  intro seen
  cases seen with
  | true => exact (mirrors_selectionSet nestingLimit).bind fun _ => .pure _
  | false =>
      apply mirrors_next.bind
      intro lexeme
      rcases lexeme with ⟨token, pos⟩
      dsimp only [Lexeme.erase]
      split
      · exact (mirrors_operation pos .query).map fun _ => rfl
      · exact (mirrors_operation pos .mutation).map fun _ => rfl
      · exact (mirrors_operation pos .subscription).map fun _ => rfl
      · exact (mirrors_fragment pos).map fun _ => rfl
      · exact mirrors_reject _

theorem mirrors_document : Mirrors Document.erase document document :=
  (mirrors_many1 mirrors_definition).map fun _ => rfl

end Grammar

/-- What a text stands for is, up to places, what its tokens stand for. -/
theorem Document.parse_eq_ok {text : String} {document : Document}
    (parsed : Document.parse text = .ok document) :
    (scan .start text.toList).complete = true ∧
      ∃ rest, Grammar.document (scan .start text.toList).lexemes = .ok (document, rest) := by
  rw [parse, Scan.document] at parsed
  split at parsed
  · cases parsed
  · cases parsed
  · cases parsed
  · next found rest run =>
      split at parsed
      · next complete =>
          cases parsed
          exact ⟨complete, rest, run⟩
      · cases parsed

/-- Tokens that stand for a document stand for it wherever they are. -/
theorem Document.parse_of_tokens {text : String} {document : Document} {rest : List Lexeme}
    (complete : (scan .start text.toList).complete = true)
    (read : Grammar.document (lexemes ((scan .start text.toList).lexemes.map Lexeme.token)) =
      .ok (document, rest)) :
    ∃ found, Document.parse text = .ok found ∧ found.erase = document := by
  have mirrored := Grammar.mirrors_document (scan .start text.toList).lexemes
  rw [map_erase_eq_lexemes, read] at mirrored
  cases run : Grammar.document (scan .start text.toList).lexemes with
  | error mismatch =>
      rw [run] at mirrored
      cases mirrored
  | ok result =>
      rw [run] at mirrored
      cases mirrored
      refine ⟨result.1, ?_, rfl⟩
      rw [parse, Scan.document, run]
      exact if_pos complete

/-- Tokens at which the reader breaks down break it down wherever they are. -/
theorem Document.parse_of_breakdown {text : String}
    (read : Grammar.document (lexemes ((scan .start text.toList).lexemes.map Lexeme.token)) =
      .error .breakdown) : Document.parse text = .error .tornString := by
  have mirrored := Grammar.mirrors_document (scan .start text.toList).lexemes
  rw [map_erase_eq_lexemes, read] at mirrored
  rw [parse, Scan.document]
  cases run : Grammar.document (scan .start text.toList).lexemes with
  | ok result =>
      rw [run] at mirrored
      cases mirrored
  | error mismatch =>
      rw [run] at mirrored
      cases mismatch with
      | breakdown => rfl
      | lexeme _ | ending => cases mirrored

end PersistedDocuments.GraphQL
