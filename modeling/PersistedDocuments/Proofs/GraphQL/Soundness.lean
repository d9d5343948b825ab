import PersistedDocuments.Proofs.GraphQL.Places
import PersistedDocuments.Proofs.GraphQL.WellFormed
import PersistedDocuments.Proofs.Outcome

/-!
# What is read fits

Every document that a text stands for obeys the rules of the grammar. Each reader is followed with
a property of its results, on lexemes whose tokens a scan can find.
-/

namespace PersistedDocuments.GraphQL

/-! ## Tokens of a scan -/

theorem holds_of_guard {condition : Prop} [Decidable condition]
    (passed : (guard condition : Option Unit) = some ()) : condition := by
  by_cases holds : condition
  · exact holds
  · rw [guard, if_neg holds] at passed
    cases passed

theorem Number.int?_inRange {cs : List Char} {n : Int} (read : int? cs = some n) : InRange n := by
  rcases Option.bind_eq_some_iff.1 read with ⟨⟨whole, rest⟩, _, guarded⟩
  rcases Option.bind_eq_some_iff.1 guarded with ⟨_, _, ranged⟩
  rcases Option.bind_eq_some_iff.1 ranged with ⟨_, inRange, same⟩
  cases same
  have bounds := holds_of_guard inRange
  exact bounds

namespace Token

variable {cs text rest : List Char} {token : Token}

theorem valid_ofBlock (body : List Char) : (ofBlock body).Valid := by
  rw [ofBlock]
  split <;> trivial

theorem valid_of_readString? (read : readString? cs = some (token, text, rest)) : token.Valid := by
  unfold readString? at read
  split at read
  · rcases Option.bind_eq_some_iff.1 read with ⟨_, _, same⟩
    cases same
    exact valid_ofBlock _
  · rcases Option.bind_eq_some_iff.1 read with ⟨_, _, decoded⟩
    rcases Option.bind_eq_some_iff.1 decoded with ⟨_, _, same⟩
    cases same
    trivial

theorem valid_of_number (read : Number.token? cs = some token) : token.Valid := by
  unfold Number.token? at read
  split at read
  · rcases Option.map_eq_some_iff.1 read with ⟨_, _, rfl⟩
    trivial
  · rcases Option.map_eq_some_iff.1 read with ⟨n, found, rfl⟩
    exact Number.int?_inRange found

theorem valid_of_read? (read : read? cs = some (token, text, rest)) : token.Valid := by
  unfold read? at read
  split at read
  · cases read
  · cases read
    trivial
  · next first tail _ =>
      split at read
      · cases read
        trivial
      · split at read
        · next isStart =>
            cases read
            refine ⟨first, tail.takeWhile isNamePart, String.toList_ofList, isStart, ?_⟩
            exact fun c present => List.all_eq_true.1 List.all_takeWhile c present
        · split at read
          · rcases Option.map_eq_some_iff.1 read with ⟨_, number, same⟩
            cases same
            exact valid_of_number number
          · split at read
            · exact valid_of_readString? read
            · cases read

end Token

/-- All lexemes have tokens that a scan can find. -/
def AllValid (found : List Lexeme) : Prop := ∀ lexeme ∈ found, lexeme.token.Valid

theorem allValid_scan (pos : Pos) (cs : List Char) : AllValid (scan pos cs).lexemes := by
  fun_induction scan pos cs with
  | case1 => exact fun _ absent => (nomatch absent)
  | case2 => exact fun _ absent => (nomatch absent)
  | case3 pos cs here c rest skipped token text behind found tail ih =>
      intro lexeme present
      rcases List.mem_cons.1 present with rfl | later
      · exact Token.valid_of_read? found
      · exact ih lexeme later

namespace Reader

variable {α β : Type}

/-- On lexemes that a scan can find, results of the reader have the property, and what is left are
such lexemes again. -/
def Ensures (property : α → Prop) (reader : Reader α) : Prop :=
  ∀ found result rest, AllValid found → reader found = .ok (result, rest) →
    property result ∧ AllValid rest

/-! ## Combinators -/

namespace Ensures

variable {property : α → Prop} {nextProperty : β → Prop} {reader : Reader α}

theorem pure {result : α} (holds : property result) : Ensures property (pure result) := by
  intro found _ _ valid run
  cases run
  exact ⟨holds, valid⟩

theorem bind (first : Ensures property reader) {next : α → Reader β}
    (second : ∀ result, property result → Ensures nextProperty (next result)) :
    Ensures nextProperty (reader >>= next) := by
  intro found result rest valid run
  rcases bind_eq_ok.1 run with ⟨⟨value, behind⟩, firstRun, secondRun⟩
  have ⟨holds, stillValid⟩ := first found value behind valid firstRun
  exact second value holds behind result rest stillValid secondRun

theorem map (first : Ensures property reader) {change : α → β}
    (holds : ∀ result, property result → nextProperty (change result)) :
    Ensures nextProperty (change <$> reader) := by
  rw [map_eq_pure_bind]
  exact first.bind fun result given => .pure (holds result given)

theorem some (first : Ensures property reader) :
    Ensures (fun result => ∀ value, result = some value → property value) (some <$> reader) :=
  first.map fun _ given _ same => Option.some.inj same ▸ given

end Ensures

variable {property : α → Prop} {item : Reader α}

theorem ensures_reject (lexeme : Lexeme) : Ensures property (reject lexeme) := by
  intro found result rest valid run
  cases run

theorem ensures_breakDown : Ensures property breakDown := by
  intro found result rest valid run
  cases run

theorem ensures_peek : Ensures (fun _ => True) peek := by
  intro found result rest valid run
  cases run
  exact ⟨trivial, valid⟩

theorem ensures_next : Ensures (fun lexeme => lexeme.token.Valid) next := by
  intro found result rest valid run
  cases found with
  | nil => cases run
  | cons first rest =>
      cases run
      exact ⟨valid _ List.mem_cons_self,
        fun lexeme later => valid lexeme (List.mem_cons_of_mem _ later)⟩

theorem ensures_expect (token : Token) : Ensures (fun _ => True) (expect token) := by
  apply ensures_next.bind
  intro lexeme _
  split
  · exact .pure trivial
  · exact ensures_reject lexeme

theorem ensures_symbol (punctuator : Punctuator) : Ensures (fun _ => True) (symbol punctuator) :=
  ensures_expect _

theorem ensures_sees (punctuator : Punctuator) : Ensures (fun _ => True) (sees punctuator) :=
  ensures_peek.bind fun _ _ => .pure trivial

theorem ensures_accept (punctuator : Punctuator) : Ensures (fun _ => True) (accept punctuator) := by
  apply (ensures_sees punctuator).bind
  intro seen _
  split
  · exact ensures_next.bind fun _ _ => .pure trivial
  · exact .pure trivial

theorem ensures_name : Ensures IsName name := by
  apply ensures_next.bind
  intro lexeme valid
  split
  · next text same => exact .pure (by rwa [same] at valid)
  · exact ensures_reject lexeme

theorem ensures_name? : Ensures (fun result => ∀ text, result = some text → IsName text) name? := by
  apply ensures_peek.bind
  intro token _
  split
  · exact ensures_name.some
  · exact .pure fun _ absent => (nomatch absent)

theorem ensures_repeatWithin {more : Token → Bool} (each : Ensures property item)
    (bound : List Lexeme) :
    Ensures (fun results => ∀ result ∈ results, property result)
      (repeatWithin more item bound) := by
  induction bound with
  | nil => exact .pure fun _ absent => (nomatch absent)
  | cons _ bound ih =>
      apply ensures_peek.bind
      intro token _
      split
      · split
        · refine each.bind fun first holds => ih.bind fun rest all => .pure fun result present => ?_
          rcases List.mem_cons.1 present with rfl | later
          · exact holds
          · exact all result later
        · exact .pure fun _ absent => (nomatch absent)
      · exact .pure fun _ absent => (nomatch absent)

theorem ensures_many {more : Token → Bool} (each : Ensures property item) :
    Ensures (fun results => ∀ result ∈ results, property result) (many more item) :=
  fun found => ensures_repeatWithin each found found

theorem ensures_many1 {more : Token → Bool} (each : Ensures property item) :
    Ensures (fun results => results ≠ [] ∧ ∀ result ∈ results, property result)
      (many1 more item) := by
  refine each.bind fun first holds => (ensures_many each).bind fun rest all =>
    .pure ⟨List.cons_ne_nil _ _, fun result present => ?_⟩
  rcases List.mem_cons.1 present with rfl | later
  · exact holds
  · exact all result later

end Reader

/-! ## Phrases -/

namespace Grammar

open Reader

variable {α : Type} {property : α → Prop}

theorem ensures_member {property : Value → Prop} {value : Reader Value}
    (each : Ensures property value) :
    Ensures (fun member => IsName member.1 ∧ property member.2) (member value) :=
  ensures_name.bind fun _ isName => (ensures_symbol _).bind fun _ _ => each.bind fun _ holds =>
    .pure ⟨isName, holds⟩

theorem valueOfName_fits {dynamic : Bool} {depth : Nat} {text : String} (isName : IsName text) :
    (valueOfName text).Fits dynamic depth := by
  unfold valueOfName
  split
  · exact .boolean
  · exact .boolean
  · exact .null
  · next notTrue notFalse notNull =>
      refine .enum isName ?_
      unfold valueOfName
      split
      · exact absurd rfl notTrue
      · exact absurd rfl notFalse
      · exact absurd rfl notNull
      · rfl

/-- A value around which no bracket may be opened, or one may. -/
theorem ensures_valueAround {dynamic : Bool} {depth : Nat} (nested : Option (Reader Value))
    (each : ∀ item, nested = some item →
      ∃ below, depth = below + 1 ∧ Ensures (Value.Fits dynamic below) item) :
    Ensures (Value.Fits dynamic depth) (valueAround dynamic nested) := by
  apply ensures_next.bind
  intro lexeme valid
  rcases lexeme with ⟨token, pos⟩
  cases token with
  | name text => exact .pure (valueOfName_fits valid)
  | int n => exact .pure (.int valid)
  | float x => exact .pure .float
  | string text => exact .pure .string
  | torn => exact ensures_breakDown
  | punctuator punctuator =>
      cases punctuator
      case dollar =>
        dsimp only
        split
        · next allowed => exact ensures_name.map fun _ isName => .reference allowed isName
        · exact ensures_reject _
      case openBracket =>
        cases nested with
        | none => exact ensures_reject _
        | some item =>
            rcases each item rfl with ⟨below, rfl, fits⟩
            exact (ensures_many fits).bind fun items all => (ensures_symbol _).bind fun _ _ =>
              .pure (.list all)
      case openBrace =>
        cases nested with
        | none => exact ensures_reject _
        | some item =>
            rcases each item rfl with ⟨below, rfl, fits⟩
            refine (ensures_many (ensures_member fits)).bind fun members all =>
              (ensures_symbol _).bind fun _ _ => .pure ?_
            have ⟨sorted, allowed⟩ := Members.sorted_foldl_set .nil
              (fun _ absent => (nomatch absent)) all
            exact .object sorted (fun member present => (allowed member present).1)
              fun member present => (allowed member present).2
      all_goals exact ensures_reject _

theorem ensures_value (dynamic : Bool) (depth : Nat) :
    Ensures (Value.Fits dynamic depth) (value dynamic depth) := by
  induction depth with
  | zero => exact ensures_valueAround none fun _ absent => (nomatch absent)
  | succ depth ih =>
      apply ensures_valueAround _
      intro item same
      cases same
      exact ⟨depth, rfl, ih⟩

theorem ensures_typeUnmarked {depth : Nat} (nested : Option (Reader Ty))
    (each : ∀ item, nested = some item →
      ∃ below, depth = below + 1 ∧ Ensures (Ty.Fits below) item) :
    Ensures (fun type => type.Fits depth ∧ ∀ inner, type ≠ .nonNull inner)
      (typeUnmarked nested) := by
  apply ensures_next.bind
  intro lexeme valid
  rcases lexeme with ⟨token, pos⟩
  cases token with
  | name text => exact .pure ⟨.named valid, fun _ same => (nomatch same)⟩
  | punctuator punctuator =>
      cases punctuator
      case openBracket =>
        cases nested with
        | none => exact ensures_reject _
        | some item =>
            rcases each item rfl with ⟨below, rfl, fits⟩
            exact fits.bind fun type fits => (ensures_symbol _).bind fun _ _ =>
              .pure ⟨.list fits, fun _ same => (nomatch same)⟩
      all_goals exact ensures_reject _
  | int _ => exact ensures_reject _
  | float _ => exact ensures_reject _
  | string _ => exact ensures_reject _
  | torn => exact ensures_reject _

theorem ensures_typeMarked {depth : Nat} {type : Ty} (fits : type.Fits depth)
    (unmarked : ∀ inner, type ≠ .nonNull inner) : Ensures (Ty.Fits depth) (typeMarked type) := by
  apply (ensures_accept _).bind
  intro marked _
  split
  · exact .pure (.nonNull fits unmarked)
  · exact .pure fits

theorem ensures_type (depth : Nat) : Ensures (Ty.Fits depth) (type depth) := by
  induction depth with
  | zero =>
      rw [type, typeAround_eq]
      exact (ensures_typeUnmarked none fun _ absent => (nomatch absent)).bind
        fun _ fits => ensures_typeMarked fits.1 fits.2
  | succ depth ih =>
      rw [type, typeAround_eq]
      refine (ensures_typeUnmarked _ fun item same => ?_).bind
        fun _ fits => ensures_typeMarked fits.1 fits.2
      cases same
      exact ⟨depth, rfl, ih⟩

theorem ensures_bracketed {left right : Punctuator} {property : Nat → α → Prop}
    {content : Nat → Reader α} (each : ∀ depth, Ensures (property depth) (content depth))
    (depth : Nat) :
    Ensures (fun found => 0 < depth ∧ property (depth - 1) found.2)
      (bracketed left right content depth) := by
  cases depth with
  | zero => exact ensures_next.bind fun _ _ => ensures_reject _
  | succ depth =>
      exact (ensures_symbol left).bind fun _ _ => (each depth).bind fun _ holds =>
        (ensures_symbol right).bind fun _ _ => .pure ⟨Nat.succ_pos depth, holds⟩

theorem ensures_inParens {property : Nat → α → Prop} {item : Nat → Reader α}
    (each : ∀ depth, Ensures (property depth) (item depth)) (depth : Nat) :
    Ensures (fun found => ∀ result ∈ found, 0 < depth ∧ property (depth - 1) result)
      (inParens item depth) := by
  apply (ensures_sees _).bind
  intro seen _
  split
  · exact (ensures_bracketed (fun depth => ensures_many1 (each depth)) depth).bind
      fun found holds => .pure fun result present => ⟨holds.1, holds.2.2 result present⟩
  · exact .pure fun _ absent => (nomatch absent)

theorem ensures_arguments (depth : Nat) :
    Ensures (Members.FitArguments depth) (arguments depth) := by
  refine fun found result rest valid run => ?_
  have ⟨holds, stillValid⟩ := ensures_inParens
    (fun depth => ensures_member (ensures_value true depth)) depth found result rest valid run
  exact ⟨fun argument present =>
    have ⟨room, isName, fits⟩ := holds argument present
    ⟨isName, room, fits⟩, stillValid⟩

theorem ensures_directive (depth : Nat) : Ensures (Directive.Fits depth) (directive depth) :=
  (ensures_symbol _).bind fun _ _ => ensures_name.bind fun _ isName =>
    (ensures_arguments depth).bind fun _ fits => .pure ⟨isName, fits⟩

theorem ensures_directives (depth : Nat) :
    Ensures (fun found => ∀ directive ∈ found, directive.Fits depth) (directives depth) :=
  ensures_many (ensures_directive depth)

theorem ensures_variableDefinition (depth : Nat) :
    Ensures (Variable.Fits depth) (variableDefinition depth) := by
  rw [variableDefinition_eq]
  refine (ensures_symbol _).bind fun _ _ => ensures_name.bind fun _ isName =>
    (ensures_symbol _).bind fun _ _ => (ensures_type depth).bind fun _ type =>
      (ensures_accept _).bind fun given _ => ?_
  split
  · exact (ensures_value false depth).some.bind fun _ default => .pure ⟨isName, type, default⟩
  · exact .pure ⟨isName, type, fun _ absent => (nomatch absent)⟩

theorem ensures_fieldBehind {depth : Nat} {set : Reader SelectionSet}
    (below : Ensures (SelectionSet.Fits depth) set) {pos : Pos} {first : String}
    {second : Option String} (firstIsName : IsName first)
    (secondIsName : ∀ text, second = some text → IsName text) :
    Ensures (Selection.Fits depth) (fieldBehind depth set pos first second) := by
  refine (ensures_arguments depth).bind fun arguments argumentsFit =>
    (ensures_directives depth).bind fun directives directivesFit => ?_
  have head : (headOfNames pos first second arguments directives).Fits depth := by
    cases second with
    | none => exact ⟨fun _ absent => (nomatch absent), firstIsName, argumentsFit, directivesFit⟩
    | some text =>
        exact ⟨fun _ same => Option.some.inj same ▸ firstIsName, secondIsName text rfl,
          argumentsFit,
          directivesFit⟩
  apply (ensures_sees _).bind
  intro seen _
  split
  · refine below.bind fun set fits => .pure ?_
    rcases Nat.exists_eq_add_of_lt fits.room with ⟨depth, rfl⟩
    rw [Nat.zero_add] at head ⊢
    exact .field head fits.nonempty (by simpa using fits.each)
  · exact .pure (.leaf head)

theorem ensures_field {depth : Nat} {set : Reader SelectionSet}
    (below : Ensures (SelectionSet.Fits depth) set) {pos : Pos} {first : String}
    (isName : IsName first) : Ensures (Selection.Fits depth) (field depth set pos first) := by
  rw [field_eq]
  apply (ensures_accept _).bind
  intro renamed _
  split
  · exact ensures_name.some.bind fun _ => ensures_fieldBehind below isName
  · exact ensures_fieldBehind below isName fun _ absent => (nomatch absent)

theorem ensures_inline {depth : Nat} {set : Reader SelectionSet}
    (below : Ensures (SelectionSet.Fits depth) set) {pos : Pos} {condition : Option String}
    (names : ∀ name, condition = some name → IsName name) :
    Ensures (Selection.Fits depth) (inline depth set pos condition) := by
  refine (ensures_directives depth).bind fun directives marks => below.bind fun set fits => .pure ?_
  rcases Nat.exists_eq_add_of_lt fits.room with ⟨depth, rfl⟩
  rw [Nat.zero_add] at marks ⊢
  exact .inline names marks fits.nonempty (by simpa using fits.each)

theorem ensures_spread {depth : Nat} {set : Reader SelectionSet}
    (below : Ensures (SelectionSet.Fits depth) set) {pos : Pos} :
    Ensures (Selection.Fits depth) (spread depth set pos) := by
  apply ensures_name?.bind
  intro text isName
  split
  · exact ensures_name.bind fun _ isName =>
      ensures_inline below fun _ same => Option.some.inj same ▸ isName
  · next text notOn =>
      exact (ensures_directives depth).bind fun _ marks =>
        .pure (.spread (isName text rfl) (fun same => notOn same) marks)
  · exact ensures_inline below fun _ absent => (nomatch absent)

theorem ensures_selection {depth : Nat} {set : Reader SelectionSet}
    (below : Ensures (SelectionSet.Fits depth) set) :
    Ensures (Selection.Fits depth) (selection depth set) := by
  apply ensures_next.bind
  intro lexeme valid
  split
  · next text same => exact ensures_field below (by rwa [same] at valid)
  · exact ensures_spread below
  · exact ensures_reject _

theorem ensures_selectionSet (depth : Nat) :
    Ensures (SelectionSet.Fits depth) (selectionSet depth) := by
  induction depth with
  | zero => exact ensures_next.bind fun _ _ => ensures_reject _
  | succ depth ih =>
      exact (ensures_symbol _).bind fun _ _ => (ensures_many1 (ensures_selection ih)).bind
        fun items holds => (ensures_symbol _).bind fun _ _ =>
          .pure ⟨holds.1, Nat.succ_pos depth, holds.2⟩

theorem ensures_operation (pos : Pos) (kind : OperationKind) :
    Ensures Operation.Fits (operation pos kind) := by
  refine ensures_name?.bind fun text isName =>
    (ensures_inParens ensures_variableDefinition nestingLimit).bind fun vars varsFit =>
    (ensures_directives nestingLimit).bind fun directives directivesFit =>
    (ensures_selectionSet nestingLimit).bind fun set setFits =>
      .pure ⟨fun header same => ?_, setFits⟩
  cases same
  exact ⟨isName, fun var present => (varsFit var present).2, directivesFit⟩

theorem ensures_fragment (pos : Pos) : Ensures Fragment.Fits (fragment pos) :=
  ensures_name.bind fun _ isName => (ensures_expect _).bind fun _ _ =>
    ensures_name.bind fun _ typeCondition =>
    (ensures_directives nestingLimit).bind fun _ directives =>
    (ensures_selectionSet nestingLimit).bind fun _ set =>
      .pure ⟨isName, typeCondition, directives, set⟩

theorem ensures_definition : Ensures Definition.Fits definition := by
  apply (ensures_sees _).bind
  intro seen _
  split
  · exact (ensures_selectionSet nestingLimit).bind fun _ set =>
      .pure ⟨fun _ absent => (nomatch absent), set⟩
  · apply ensures_next.bind
    intro lexeme _
    split
    · exact (ensures_operation _ _).map fun _ fits => fits
    · exact (ensures_operation _ _).map fun _ fits => fits
    · exact (ensures_operation _ _).map fun _ fits => fits
    · exact (ensures_fragment _).map fun _ fits => fits
    · exact ensures_reject _

theorem ensures_document : Ensures Document.Fits document :=
  (ensures_many1 ensures_definition).map fun _ holds => ⟨holds.1, holds.2⟩

end Grammar

/-- A document that a text stands for obeys the rules of the grammar. -/
theorem Document.fits_of_parse {text : String} {document : Document}
    (parsed : Document.parse text = .ok document) : document.Fits := by
  rcases Document.parse_eq_ok parsed with ⟨_, rest, read⟩
  exact (Grammar.ensures_document _ document rest (allValid_scan _ _) read).1

end PersistedDocuments.GraphQL
