import PersistedDocuments.Proofs.GraphQL.Phrases
import PersistedDocuments.Proofs.Outcome

/-!
# Lexemes behind a phrase

A reader that stops in front of a lexeme looks at it at most, so further lexemes behind it change
nothing. Every definition ends with the brace that closes its selection set. So two series of
lexemes that are both documents make, one behind the other, the document with the definitions of
both.
-/

namespace PersistedDocuments.GraphQL

namespace Reader

variable {α β : Type}

/-- The reader takes some lexemes at least, and looks at no more than some of those that it leaves.
-/
structure Foresees (taken ahead : Nat) (reader : Reader α) : Prop where
  shorter : ∀ {found result rest}, reader found = .ok (result, rest) →
    rest.length + taken ≤ found.length
  extends_append : ∀ {found result rest}, reader found = .ok (result, rest) →
    ahead ≤ rest.length → ∀ further, reader (found ++ further) = .ok (result, rest ++ further)

variable {taken takenNext ahead aheadNext : Nat} {reader item : Reader α}

/-! ## Combinators -/

theorem run_bind {next : α → Reader β} {found rest : List Lexeme} {result : β} :
    (reader >>= next) found = .ok (result, rest) ↔
      ∃ first middle, reader found = .ok (first, middle) ∧
        next first middle = .ok (result, rest) := by
  refine Iff.trans bind_eq_ok ⟨?_, ?_⟩
  · rintro ⟨⟨first, middle⟩, read, readNext⟩
    exact ⟨first, middle, read, readNext⟩
  · rintro ⟨first, middle, read, readNext⟩
    exact ⟨(first, middle), read, readNext⟩

namespace Foresees

theorem weaken (foresees : Foresees taken ahead reader) {fewer more : Nat} (takes : fewer ≤ taken)
    (looks : ahead ≤ more) : Foresees fewer more reader where
  shorter run := Nat.le_trans (Nat.add_le_add_left takes _) (foresees.shorter run)
  extends_append run enough := foresees.extends_append run (Nat.le_trans looks enough)

theorem pure (result : α) : Foresees 0 ahead (pure result) where
  shorter run := by
    cases run
    exact Nat.le_refl _
  extends_append run _ further := by
    cases run
    rfl

/-- The second reader may take what the first one looks at. -/
theorem bind (first : Foresees taken ahead reader) {next : α → Reader β}
    (second : ∀ result, Foresees takenNext aheadNext (next result))
    (looks : ahead ≤ takenNext + aheadNext) :
    Foresees (taken + takenNext) aheadNext (reader >>= next) where
  shorter run := by
    rcases run_bind.1 run with ⟨result, middle, read, readNext⟩
    have taken := first.shorter read
    have takenNext := (second result).shorter readNext
    omega
  extends_append run enough further := by
    rcases run_bind.1 run with ⟨result, middle, read, readNext⟩
    have takenNext := (second result).shorter readNext
    exact run_bind.2 ⟨result, middle ++ further,
      first.extends_append read (by omega) further,
      (second result).extends_append readNext enough further⟩

/-- A reader that takes a lexeme and looks no further, and what it leaves to another one. -/
theorem andThen (first : Foresees 1 0 reader) {next : α → Reader β}
    (second : ∀ result, Foresees 0 ahead (next result)) : Foresees 1 ahead (reader >>= next) :=
  first.bind second (Nat.zero_le _)

/-- What is looked at in the end is taken after all. -/
theorem upTo (first : Foresees 0 1 reader) {next : α → Reader β}
    (second : ∀ result, Foresees 1 0 (next result)) : Foresees 1 0 (reader >>= next) :=
  first.bind second (Nat.le_refl 1)

/-- Readers that look at one lexeme, one after the other. -/
theorem peeking (first : Foresees 0 1 reader) {next : α → Reader β}
    (second : ∀ result, Foresees 0 1 (next result)) : Foresees 0 1 (reader >>= next) :=
  first.bind second (Nat.le_refl 1)

/-- A reader that looks no further may stand anywhere. -/
theorem whole (foresees : Foresees 1 0 reader) : Foresees 0 ahead reader :=
  foresees.weaken (Nat.zero_le 1) (Nat.zero_le ahead)

theorem map (foresees : Foresees taken ahead reader) (change : α → β) :
    Foresees taken ahead (change <$> reader) where
  shorter run := by
    rw [map_eq_pure_bind] at run
    rcases run_bind.1 run with ⟨_, _, read, same⟩
    cases same
    exact foresees.shorter read
  extends_append run enough further := by
    rw [map_eq_pure_bind] at run ⊢
    rcases run_bind.1 run with ⟨first, _, read, same⟩
    cases same
    exact run_bind.2 ⟨first, _, foresees.extends_append read enough further, rfl⟩

end Foresees

theorem foresees_reject (lexeme : Lexeme) :
    Foresees taken ahead (reject lexeme : Reader α) where
  shorter run := nomatch run
  extends_append run := nomatch run

theorem foresees_breakDown : Foresees taken ahead (breakDown : Reader α) where
  shorter run := nomatch run
  extends_append run := nomatch run

theorem foresees_peek : Foresees 0 1 peek where
  shorter run := by
    cases run
    exact Nat.le_refl _
  extends_append {found _ _} run enough further := by
    cases run
    cases found with
    | nil => cases enough
    | cons first rest => rfl

theorem foresees_next : Foresees 1 0 next where
  shorter {found _ _} run := by
    cases found with
    | nil => cases run
    | cons first rest =>
        cases run
        exact Nat.le_refl _
  extends_append {found _ _} run _ further := by
    cases found with
    | nil => cases run
    | cons first rest =>
        cases run
        rfl

theorem foresees_expect (token : Token) : Foresees 1 0 (expect token) := by
  apply foresees_next.andThen
  intro lexeme
  split
  · exact .pure _
  · exact foresees_reject lexeme

theorem foresees_symbol (punctuator : Punctuator) : Foresees 1 0 (symbol punctuator) :=
  foresees_expect _

theorem foresees_sees (punctuator : Punctuator) : Foresees 0 1 (sees punctuator) :=
  foresees_peek.peeking fun _ => .pure _

theorem foresees_accept (punctuator : Punctuator) : Foresees 0 1 (accept punctuator) := by
  apply (foresees_sees punctuator).peeking
  intro seen
  split
  · exact (foresees_next.andThen fun _ => .pure _).whole
  · exact .pure _

theorem foresees_name : Foresees 1 0 name := by
  apply foresees_next.andThen
  intro lexeme
  split
  · exact .pure _
  · exact foresees_reject lexeme

theorem foresees_name? : Foresees 0 1 name? := by
  apply foresees_peek.peeking
  intro token
  split
  · exact (foresees_name.map _).whole
  · exact .pure _

/-- A repetition told without a bound: it ends with the lexemes or in front of the first one that
does not pass the test. -/
inductive Repeats (more : Token → Bool) (item : Reader α) :
    List Lexeme → List α → List Lexeme → Prop
  | ending : Repeats more item [] [] []
  | stop {lexeme found} (stops : more lexeme.token = false) :
      Repeats more item (lexeme :: found) [] (lexeme :: found)
  | item {lexeme found first middle others rest} (passes : more lexeme.token = true)
      (read : item (lexeme :: found) = .ok (first, middle))
      (later : Repeats more item middle others rest) :
      Repeats more item (lexeme :: found) (first :: others) rest

variable {more : Token → Bool} {found further rest : List Lexeme} {results others : List α}

/-- The bound stops no repetition whose items take a lexeme each. -/
theorem repeatWithin_eq_ok (each : Foresees 1 ahead item) {bound : List Lexeme}
    (enough : found.length ≤ bound.length) :
    repeatWithin more item bound found = .ok (results, rest) ↔
      Repeats more item found results rest := by
  induction bound generalizing found results with
  | nil =>
      cases List.length_eq_zero_iff.1 (Nat.le_zero.1 enough)
      constructor
      · intro run
        cases run
        exact .ending
      · intro repeats
        cases repeats
        rfl
  | cons limit bound ih =>
      refine Iff.trans run_bind ?_
      cases found with
      | nil =>
          constructor
          · rintro ⟨_, _, peeked, read⟩
            cases peeked
            cases read
            exact .ending
          · intro repeats
            cases repeats
            exact ⟨none, [], rfl, rfl⟩
      | cons lexeme found =>
          have step {first : α} {middle : List Lexeme}
              (read : item (lexeme :: found) = .ok (first, middle)) :
              middle.length ≤ bound.length :=
            Nat.le_of_succ_le_succ (Nat.le_trans (each.shorter read) enough)
          constructor
          · rintro ⟨_, _, peeked, read⟩
            cases peeked
            cases passes : more lexeme.token with
            | false =>
                simp only [List.head?_cons, Option.map_some, passes] at read
                cases read
                exact .stop passes
            | true =>
                simp only [List.head?_cons, Option.map_some, passes, if_true] at read
                rcases run_bind.1 read with ⟨first, middle, taken, read⟩
                rcases run_bind.1 read with ⟨others, _, repeated, same⟩
                cases same
                exact .item passes taken ((ih (step taken)).1 repeated)
          · intro repeats
            refine ⟨_, _, rfl, ?_⟩
            cases repeats with
            | stop stops =>
                simp only [List.head?_cons, Option.map_some, stops]
                rfl
            | item passes taken later =>
                simp only [List.head?_cons, Option.map_some, passes, if_true]
                exact run_bind.2 ⟨_, _, taken,
                  run_bind.2 ⟨_, _, (ih (step taken)).2 later, rfl⟩⟩

theorem many_eq_ok (each : Foresees 1 ahead item) :
    many more item found = .ok (results, rest) ↔ Repeats more item found results rest :=
  repeatWithin_eq_ok each (Nat.le_refl _)

namespace Repeats

theorem length_le (each : Foresees 1 ahead item) (repeats : Repeats more item found results rest) :
    rest.length ≤ found.length := by
  induction repeats with
  | ending => exact Nat.le_refl _
  | stop _ => exact Nat.le_refl _
  | item _ read _ ih => exact Nat.le_trans ih (Nat.le_of_succ_le (each.shorter read))

/-- A repetition that stops in front of a lexeme stops there whatever follows. -/
theorem append (each : Foresees 1 1 item) (repeats : Repeats more item found results rest)
    (nonempty : 1 ≤ rest.length) (further : List Lexeme) :
    Repeats more item (found ++ further) results (rest ++ further) := by
  induction repeats with
  | ending => cases nonempty
  | stop stops => exact .stop stops
  | item passes read later ih =>
      have room := Nat.le_trans nonempty (later.length_le each)
      exact .item passes (each.extends_append read room further) (ih nonempty)

/-- A repetition that uses up the lexemes goes on with those behind them. -/
theorem append_of_ending (each : Foresees 1 0 item) (repeats : Repeats more item found results rest)
    (ends : rest = []) {restBehind : List Lexeme}
    (behind : Repeats more item further others restBehind) :
    Repeats more item (found ++ further) (results ++ others) restBehind := by
  induction repeats with
  | ending => exact behind
  | stop _ => cases ends
  | item passes read _ ih =>
      exact .item passes (each.extends_append read (Nat.zero_le _) further) (ih ends)

/-- With a test that every token passes nothing is left. -/
theorem rest_eq_nil (repeats : Repeats (fun _ => true) item found results rest) : rest = [] := by
  induction repeats with
  | ending => rfl
  | stop stops => cases stops
  | item _ _ _ ih => exact ih

end Repeats

theorem foresees_many (each : Foresees 1 1 item) : Foresees 0 1 (many more item) where
  shorter run := ((many_eq_ok each).1 run).length_le each
  extends_append run nonempty further :=
    (many_eq_ok each).2 (((many_eq_ok each).1 run).append each nonempty further)

theorem foresees_many1 (each : Foresees 1 1 item) : Foresees 1 1 (many1 more item) :=
  each.bind (fun _ => (foresees_many each).peeking fun _ => .pure _) (Nat.le_refl 1)

end Reader

/-! ## Phrases -/

namespace Grammar

open Reader

variable {α : Type}

theorem foresees_bracketed {left right : Punctuator} {content : Nat → Reader α}
    (each : ∀ depth, Foresees 0 1 (content depth)) (depth : Nat) :
    Foresees 1 0 (bracketed left right content depth) := by
  cases depth with
  | zero => exact foresees_next.andThen foresees_reject
  | succ depth =>
      exact (foresees_symbol left).andThen fun _ => ((each depth).upTo fun _ =>
        (foresees_symbol right).andThen fun _ => .pure _).whole

theorem foresees_member {value : Reader Value} (each : Foresees 1 0 value) :
    Foresees 1 0 (member value) :=
  foresees_name.andThen fun _ => ((foresees_symbol _).andThen fun _ =>
    (each.andThen fun _ => .pure _).whole).whole

theorem foresees_valueAround (dynamic : Bool) (nested : Option (Reader Value))
    (each : ∀ item, nested = some item → Foresees 1 0 item) :
    Foresees 1 0 (valueAround dynamic nested) := by
  apply foresees_next.andThen
  intro lexeme
  rcases lexeme with ⟨token, pos⟩
  cases token with
  | name text => exact .pure _
  | int n => exact .pure _
  | float x => exact .pure _
  | string text => exact .pure _
  | torn => exact foresees_breakDown
  | punctuator punctuator =>
      cases punctuator
      case dollar =>
        cases dynamic with
        | false => exact foresees_reject _
        | true => exact (foresees_name.map _).whole
      case openBracket =>
        cases nested with
        | none => exact foresees_reject _
        | some item =>
            exact ((foresees_many ((each item rfl).weaken (Nat.le_refl 1) (Nat.zero_le 1))).upTo
              fun _ => (foresees_symbol _).andThen fun _ => .pure _).whole
      case openBrace =>
        cases nested with
        | none => exact foresees_reject _
        | some item =>
            exact ((foresees_many ((foresees_member (each item rfl)).weaken (Nat.le_refl 1)
              (Nat.zero_le 1))).upTo fun _ => (foresees_symbol _).andThen fun _ => .pure _).whole
      all_goals exact foresees_reject _

theorem foresees_value (dynamic : Bool) (depth : Nat) : Foresees 1 0 (value dynamic depth) := by
  induction depth with
  | zero => exact foresees_valueAround dynamic none fun _ absent => (nomatch absent)
  | succ depth ih =>
      apply foresees_valueAround dynamic _
      intro item same
      cases same
      exact ih

theorem foresees_typeUnmarked (nested : Option (Reader Ty))
    (each : ∀ item, nested = some item → Foresees 1 1 item) :
    Foresees 1 0 (typeUnmarked nested) := by
  apply foresees_next.andThen
  intro lexeme
  rcases lexeme with ⟨token, pos⟩
  cases token with
  | name text => exact .pure _
  | punctuator punctuator =>
      cases punctuator
      case openBracket =>
        cases nested with
        | none => exact foresees_reject _
        | some item =>
            exact (((each item rfl).weaken (Nat.zero_le 1) (Nat.le_refl 1)).upTo fun _ =>
              (foresees_symbol _).andThen fun _ => .pure _).whole
      all_goals exact foresees_reject _
  | int _ => exact foresees_reject _
  | float _ => exact foresees_reject _
  | string _ => exact foresees_reject _
  | torn => exact foresees_reject _

theorem foresees_typeAround (nested : Option (Reader Ty))
    (each : ∀ item, nested = some item → Foresees 1 1 item) :
    Foresees 1 1 (typeAround nested) := by
  rw [typeAround_eq]
  apply (foresees_typeUnmarked nested each).andThen
  intro type
  apply (foresees_accept _).peeking
  intro marked
  split
  · exact .pure _
  · exact .pure _

theorem foresees_type (depth : Nat) : Foresees 1 1 (type depth) := by
  induction depth with
  | zero => exact foresees_typeAround none fun _ absent => (nomatch absent)
  | succ depth ih =>
      apply foresees_typeAround _
      intro item same
      cases same
      exact ih

theorem foresees_inParens {item : Nat → Reader α} (each : ∀ depth, Foresees 1 1 (item depth))
    (depth : Nat) : Foresees 0 1 (inParens item depth) := by
  apply (foresees_sees _).peeking
  intro seen
  split
  · exact ((foresees_bracketed (fun depth => (foresees_many1 (each depth)).weaken (Nat.zero_le 1)
      (Nat.le_refl 1)) depth).andThen fun _ => .pure _).whole
  · exact .pure _

theorem foresees_arguments (depth : Nat) : Foresees 0 1 (arguments depth) :=
  foresees_inParens (fun depth => (foresees_member (foresees_value true depth)).weaken
    (Nat.le_refl 1) (Nat.zero_le 1)) depth

theorem foresees_directive (depth : Nat) : Foresees 1 1 (directive depth) := by
  apply (foresees_symbol _).andThen
  intro pos
  refine (foresees_name.andThen fun text => ?_).weaken (Nat.zero_le 1) (Nat.le_refl 1)
  exact (foresees_arguments depth).peeking fun _ => .pure _

theorem foresees_directives (depth : Nat) : Foresees 0 1 (directives depth) :=
  foresees_many (foresees_directive depth)

theorem foresees_variableDefault (depth : Nat) (pos : Pos) (text : String) (type : Ty) :
    Foresees 0 1 (variableDefault depth pos text type) := by
  apply (foresees_accept _).peeking
  intro given
  split
  · exact (((foresees_value false depth).map _).andThen fun _ => .pure _).whole
  · exact .pure _

theorem foresees_variableDefinition (depth : Nat) : Foresees 1 1 (variableDefinition depth) := by
  rw [variableDefinition_eq]
  apply (foresees_symbol _).andThen
  intro pos
  refine (foresees_name.andThen fun text => ?_).weaken (Nat.zero_le 1) (Nat.le_refl 1)
  refine ((foresees_symbol _).andThen fun _ => ?_).weaken (Nat.zero_le 1) (Nat.le_refl 1)
  exact ((foresees_type depth).weaken (Nat.zero_le 1) (Nat.le_refl 1)).peeking
    (foresees_variableDefault depth pos text)

theorem foresees_fieldBehind {depth : Nat} {set : Reader SelectionSet} (below : Foresees 1 0 set)
    (pos : Pos) (first : String) (second : Option String) :
    Foresees 0 1 (fieldBehind depth set pos first second) := by
  refine (foresees_arguments depth).peeking fun arguments =>
    (foresees_directives depth).peeking fun directives => (foresees_sees _).peeking fun seen => ?_
  split
  · exact (below.andThen fun _ => .pure _).whole
  · exact .pure _

theorem foresees_field {depth : Nat} {set : Reader SelectionSet} (below : Foresees 1 0 set)
    (pos : Pos) (first : String) : Foresees 0 1 (field depth set pos first) := by
  rw [field_eq]
  apply (foresees_accept _).peeking
  intro renamed
  split
  · exact ((foresees_name.map _).andThen fun second =>
      foresees_fieldBehind below pos first second).weaken (Nat.zero_le 1) (Nat.le_refl 1)
  · exact foresees_fieldBehind below pos first none

theorem foresees_inline {depth : Nat} {set : Reader SelectionSet} (below : Foresees 1 0 set)
    (pos : Pos) (condition : Option String) : Foresees 1 0 (inline depth set pos condition) :=
  (foresees_directives depth).upTo fun _ => below.andThen fun _ => .pure _

theorem foresees_spread {depth : Nat} {set : Reader SelectionSet} (below : Foresees 1 0 set)
    (pos : Pos) : Foresees 0 1 (spread depth set pos) := by
  apply foresees_name?.peeking
  intro text
  split
  · exact (foresees_name.andThen fun _ => (foresees_inline below pos _).whole).whole
  · exact (foresees_directives depth).peeking fun _ => .pure _
  · exact (foresees_inline below pos none).whole

theorem foresees_selection {depth : Nat} {set : Reader SelectionSet} (below : Foresees 1 0 set) :
    Foresees 1 1 (selection depth set) := by
  apply foresees_next.andThen
  intro lexeme
  split
  · exact foresees_field below _ _
  · exact foresees_spread below _
  · exact foresees_reject _

theorem foresees_selectionSet (depth : Nat) : Foresees 1 0 (selectionSet depth) := by
  induction depth with
  | zero => exact foresees_next.andThen foresees_reject
  | succ depth ih =>
      apply (foresees_symbol _).andThen
      intro first
      refine (((foresees_many1 (foresees_selection ih)).weaken (Nat.zero_le 1)
        (Nat.le_refl 1)).upTo fun items => ?_).whole
      exact (foresees_symbol _).andThen fun _ => .pure _

theorem foresees_operation (pos : Pos) (kind : OperationKind) :
    Foresees 1 0 (operation pos kind) :=
  foresees_name?.upTo fun _ => (foresees_inParens foresees_variableDefinition nestingLimit).upTo
    fun _ => (foresees_directives nestingLimit).upTo fun _ =>
      (foresees_selectionSet nestingLimit).andThen fun _ => .pure _

theorem foresees_fragment (pos : Pos) : Foresees 1 0 (fragment pos) :=
  foresees_name.andThen fun _ => ((foresees_expect _).andThen fun _ =>
    (foresees_name.andThen fun _ => ((foresees_directives nestingLimit).upTo fun _ =>
      (foresees_selectionSet nestingLimit).andThen fun _ => .pure _).whole).whole).whole

/-- A definition ends with its closing brace. -/
theorem foresees_definition : Foresees 1 0 definition := by
  apply (foresees_sees _).upTo
  intro seen
  split
  · exact (foresees_selectionSet nestingLimit).andThen fun _ => .pure _
  · apply foresees_next.andThen
    intro lexeme
    split
    · exact ((foresees_operation _ _).map _).whole
    · exact ((foresees_operation _ _).map _).whole
    · exact ((foresees_operation _ _).map _).whole
    · exact ((foresees_fragment _).map _).whole
    · exact foresees_reject _

/-- A document is a repetition of definitions that uses up all lexemes. -/
theorem document_eq_ok {found rest : List Lexeme} {result : Document} :
    document found = .ok (result, rest) ↔
      result.definitions ≠ [] ∧ rest = [] ∧
        Repeats (fun _ => true) definition found result.definitions [] := by
  rw [document, map_eq_pure_bind]
  constructor
  · intro run
    rcases run_bind.1 run with ⟨_, _, read, same⟩
    cases same
    rcases run_bind.1 read with ⟨first, middle, taken, read⟩
    rcases run_bind.1 read with ⟨others, _, repeated, same⟩
    cases same
    have later := (many_eq_ok foresees_definition).1 repeated
    cases later.rest_eq_nil
    cases found with
    | nil => exact absurd (foresees_definition.shorter taken) (Nat.not_succ_le_zero _)
    | cons lexeme found => exact ⟨List.cons_ne_nil _ _, rfl, .item rfl taken later⟩
  · rintro ⟨nonempty, rfl, repeats⟩
    rcases result with ⟨definitions⟩
    cases repeats with
    | ending => exact absurd rfl nonempty
    | item _ taken later =>
        exact run_bind.2 ⟨_, _, run_bind.2 ⟨_, _, taken,
          run_bind.2 ⟨_, _, (many_eq_ok foresees_definition).2 later, rfl⟩⟩, rfl⟩

end Grammar

end PersistedDocuments.GraphQL
