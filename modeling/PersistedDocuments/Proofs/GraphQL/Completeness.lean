import Mathlib.Data.List.Forall2
import PersistedDocuments.Proofs.GraphQL.Places
import PersistedDocuments.Proofs.GraphQL.WellFormed
import PersistedDocuments.Proofs.GraphQL.Words

/-!
# Words are read back

The words of a document that obeys the rules of the grammar are read as that document, up to places.
For each phrase this holds with anything behind its words that cannot be taken for their
continuation. Strings may be torn: the reader breaks down at the first of them that it takes, since
a string is taken for nothing but its text.
-/

namespace PersistedDocuments.GraphQL

/-- No token of the given ones comes first. -/
def Avoids (punctuators : List Punctuator) (tokens : List Token) : Prop :=
  ∀ punctuator ∈ punctuators, tokens.head? ≠ some (.punctuator punctuator)

theorem Avoids.sublist {few many : List Punctuator} {tokens : List Token}
    (avoids : Avoids many tokens) (fewer : ∀ punctuator ∈ few, punctuator ∈ many) :
    Avoids few tokens := by
  intro punctuator present
  exact avoids punctuator (fewer punctuator present)

theorem avoids_name (punctuators : List Punctuator) (text : String) (rest : List Token) :
    Avoids punctuators (.name text :: rest) := by
  intro punctuator _ same
  cases same

theorem avoids_punctuator {punctuators : List Punctuator} {punctuator : Punctuator}
    (absent : punctuator ∉ punctuators) (rest : List Token) :
    Avoids punctuators (.punctuator punctuator :: rest) := by
  intro other present same
  cases same
  exact absent present

/-- The second token is the first one, or the first is a string and the second a torn one. -/
inductive Token.Tears : Token → Token → Prop
  | whole (token : Token) : Tears token token
  | torn (text : String) : Tears (.string text) .torn

theorem Token.Tears.eq {token seen : Token} (tears : token.Tears seen)
    (other : ∀ text, token ≠ .string text) : seen = token := by
  cases tears with
  | whole => rfl
  | torn text => exact absurd rfl (other text)

namespace Reader

variable {α β γ : Type}

/-- The reader makes the result of a whole front of the given tokens, or breaks down at a torn
string. -/
inductive Meets (reader : Reader α) (tokens : List Token) (result : α) (rest given : List Token) :
    Prop
  | whole (taken left : List Token) (expected : tokens = taken ++ rest)
      (same : given = taken ++ left) (tears : List.Forall₂ Token.Tears rest left)
      (run : reader (lexemes given) = .ok (result, lexemes left))
  | torn (present : .torn ∈ given) (run : reader (lexemes given) = .error .breakdown)

/-- The reader makes the result of the tokens and leaves the rest. Where strings of them are torn,
it breaks down unless it leaves these too. -/
def Takes (reader : Reader α) (tokens : List Token) (result : α) (rest : List Token) : Prop :=
  ∀ given, List.Forall₂ Token.Tears tokens given → Meets reader tokens result rest given

variable {tokens middle rest : List Token} {result : α} {reader item : Reader α}

namespace Takes

theorem bind (first : Takes reader tokens result middle) {next : α → Reader β} {final : β}
    (second : Takes (next result) middle final rest) :
    Takes (reader >>= next) tokens final rest := by
  intro given tears
  cases first given tears with
  | torn present run =>
      refine .torn present ?_
      simp only [Bind.bind, StateT.bind, Except.bind, run]
  | whole taken left expected same tears run =>
      have step : (reader >>= next) (lexemes given) = next result (lexemes left) := by
        simp only [Bind.bind, StateT.bind, Except.bind, run]
      cases second left tears with
      | torn present runNext =>
          exact .torn (same ▸ List.mem_append_right taken present) (step.trans runNext)
      | whole takenNext leftNext expectedNext sameNext tearsNext runNext =>
          refine .whole (taken ++ takenNext) leftNext ?_ ?_ tearsNext (step.trans runNext)
          · rw [expected, expectedNext, List.append_assoc]
          · rw [same, sameNext, List.append_assoc]

/-- What all tokens make is made of them if none is torn; otherwise the reader breaks down. -/
theorem ending (takes : Takes reader tokens result []) (noneTorn : .torn ∉ tokens)
    {given : List Token} (tears : List.Forall₂ Token.Tears tokens given) :
    (.torn ∉ given ∧ reader (lexemes given) = .ok (result, [])) ∨
      (.torn ∈ given ∧ reader (lexemes given) = .error .breakdown) := by
  cases takes given tears with
  | torn present run => exact .inr ⟨present, run⟩
  | whole taken left expected same tears run =>
      cases tears
      rw [same, ← expected] at run ⊢
      exact .inl ⟨noneTorn, run⟩

end Takes

theorem takes_pure (result : α) (rest : List Token) : Takes (pure result) rest result rest :=
  fun given tears => .whole [] given rfl rfl tears rfl

namespace Takes

theorem map (first : Takes reader tokens result rest) {change : α → β} {final : β}
    (changed : change result = final) : Takes (change <$> reader) tokens final rest := by
  rw [map_eq_pure_bind, ← changed]
  exact first.bind (takes_pure _ _)

end Takes

/-- A reader that takes one token, whatever follows it. -/
theorem takes_of_token {token : Token} (other : ∀ text, token ≠ .string text)
    (run : ∀ left, reader (lexemes (token :: left)) = .ok (result, lexemes left))
    (rest : List Token) : Takes reader (token :: rest) result rest := by
  intro given tears
  rcases List.forall₂_cons_left_iff.1 tears with ⟨seen, left, head, tail, rfl⟩
  rw [head.eq other]
  exact .whole [token] left rfl rfl tail (run left)

theorem takes_next (token : Token) (rest : List Token)
    (other : ∀ text, token ≠ .string text := by nofun) :
    Takes next (token :: rest) ⟨token, .nowhere⟩ rest := takes_of_token other (fun _ => rfl) rest

theorem takes_expect (token : Token) (rest : List Token)
    (other : ∀ text, token ≠ .string text := by nofun) :
    Takes (expect token) (token :: rest) .nowhere rest := by
  apply (takes_next token rest other).bind
  rw [if_pos rfl]
  exact takes_pure _ _

theorem takes_symbol (punctuator : Punctuator) (rest : List Token) :
    Takes (symbol punctuator) (.punctuator punctuator :: rest) .nowhere rest :=
  takes_expect _ _

/-- A reader that looks at the next token, which may be torn, and goes on. -/
theorem takes_peek {next : Option Token → Reader α}
    (later : ∀ seen, Option.Rel Token.Tears tokens.head? seen →
      Takes (next seen) tokens result rest) :
    Takes (peek >>= next) tokens result rest := by
  intro given tears
  have looked : (peek >>= next) (lexemes given) = next given.head? (lexemes given) := by
    cases given <;> rfl
  have seen : Option.Rel Token.Tears tokens.head? given.head? := by
    cases tears with
    | nil => exact .none
    | cons head _ => exact .some head
  cases later given.head? seen given tears with
  | whole taken left expected same tears run =>
      exact .whole taken left expected same tears (looked.trans run)
  | torn present run => exact .torn present (looked.trans run)

theorem takes_sees (punctuator : Punctuator) (rest : List Token) :
    Takes (sees punctuator) (.punctuator punctuator :: rest) true
      (.punctuator punctuator :: rest) := by
  apply takes_peek
  rintro _ (⟨⟨⟩⟩ | _)
  rw [decide_eq_true rfl]
  exact takes_pure _ _

theorem takes_sees_of_avoids {punctuator : Punctuator} (avoids : Avoids [punctuator] tokens) :
    Takes (sees punctuator) tokens false tokens := by
  apply takes_peek
  intro seen related
  have different : seen ≠ some (.punctuator punctuator) := by
    rintro rfl
    apply avoids punctuator (List.mem_singleton.2 rfl)
    generalize tokens.head? = first at related
    rcases related with ⟨⟨⟩⟩
    rfl
  rw [decide_eq_false different]
  exact takes_pure _ _

theorem takes_accept (punctuator : Punctuator) (rest : List Token) :
    Takes (accept punctuator) (.punctuator punctuator :: rest) true rest := by
  apply (takes_sees punctuator rest).bind
  rw [if_pos rfl]
  exact (takes_next _ _).bind (takes_pure _ _)

theorem takes_accept_of_avoids {punctuator : Punctuator} (avoids : Avoids [punctuator] tokens) :
    Takes (accept punctuator) tokens false tokens :=
  (takes_sees_of_avoids avoids).bind (takes_pure _ _)

theorem takes_name (text : String) (rest : List Token) :
    Takes name (.name text :: rest) text rest := takes_of_token (by nofun) (fun _ => rfl) rest

theorem takes_name?_of_name (text : String) (rest : List Token) :
    Takes name? (.name text :: rest) (some text) rest := by
  apply takes_peek
  rintro _ (⟨⟨⟩⟩ | _)
  exact (takes_name text rest).map rfl

theorem takes_name?_of_punctuator (punctuator : Punctuator) (rest : List Token) :
    Takes name? (.punctuator punctuator :: rest) none (.punctuator punctuator :: rest) := by
  apply takes_peek
  rintro _ (⟨⟨⟩⟩ | _)
  exact takes_pure _ _

/-- A series of items, each of which is read in front of whatever may follow it. The test does not
tell a torn string from another one. -/
structure Series (more : Token → Bool) (item : Reader α) (inputs : List β) (words : β → List Token)
    (view : β → α) (before : List Token → Prop) : Prop where
  each : ∀ input ∈ inputs, ∀ rest, before rest →
    Takes item (words input ++ rest) (view input) rest
  starts : ∀ input ∈ inputs, ∃ first others, words input = first :: others ∧ more first = true
  joins : ∀ input ∈ inputs, ∀ rest, before (words input ++ rest)
  torn : ∀ text, more .torn = more (.string text)

namespace Series

variable {more : Token → Bool} {inputs : List β} {words : β → List Token} {view : β → α}
variable {before : List Token → Prop} {input : β}

theorem tail (series : Series more item (input :: inputs) words view before) :
    Series more item inputs words view before where
  each other present := series.each other (List.mem_cons_of_mem _ present)
  starts other present := series.starts other (List.mem_cons_of_mem _ present)
  joins other present := series.joins other (List.mem_cons_of_mem _ present)
  torn := series.torn

theorem more_eq (series : Series more item inputs words view before) {token seen : Token}
    (tears : token.Tears seen) : more seen = more token := by
  cases tears with
  | whole => rfl
  | torn text => exact series.torn text

theorem before_append (series : Series more item inputs words view before) (last : before rest) :
    before (inputs.flatMap words ++ rest) := by
  cases inputs with
  | nil => exact last
  | cons input others =>
      rw [List.flatMap_cons, List.append_assoc]
      exact series.joins input List.mem_cons_self _

theorem length_le (series : Series more item inputs words view before) :
    inputs.length ≤ (inputs.flatMap words).length := by
  induction inputs with
  | nil => exact Nat.le_refl 0
  | cons input others ih =>
      rcases series.starts input List.mem_cons_self with ⟨first, rest, same, _⟩
      have := ih series.tail
      rw [List.flatMap_cons, List.length_append, same, List.length_cons, List.length_cons]
      omega

/-- As many items are read as there are, if the bound admits them. -/
theorem takes_repeatWithin (series : Series more item inputs words view before) (last : before rest)
    (stop : ∀ token, rest.head? = some token → more token = false) (bound : List Lexeme)
    (enough : inputs.length ≤ bound.length) :
    Takes (repeatWithin more item bound) (inputs.flatMap words ++ rest) (inputs.map view) rest := by
  induction inputs generalizing bound with
  | nil =>
      cases bound with
      | nil => exact takes_pure _ _
      | cons _ bound =>
          apply takes_peek
          rw [List.flatMap_nil, List.nil_append]
          intro seen related
          cases found : rest.head? with
          | none =>
              rw [found] at related
              cases related
              exact takes_pure _ _
          | some token =>
              rw [found] at related
              cases related with
              | some tears =>
                  dsimp only
                  rw [series.more_eq tears, stop token found, if_neg Bool.false_ne_true]
                  exact takes_pure _ _
  | cons input inputs ih =>
      cases bound with
      | nil => cases enough
      | cons _ bound =>
          rcases series.starts input List.mem_cons_self with ⟨first, others, same, passes⟩
          apply takes_peek
          rw [List.flatMap_cons, List.append_assoc, same, List.cons_append, List.head?_cons]
          rintro _ (⟨tears⟩ | _)
          dsimp only
          rw [series.more_eq tears, passes, if_pos rfl, ← List.cons_append, ← same]
          exact (series.each input List.mem_cons_self _ (series.tail.before_append last)).bind
            ((ih series.tail bound (Nat.le_of_succ_le_succ enough)).bind (takes_pure _ _))

theorem takes_many (series : Series more item inputs words view before) (last : before rest)
    (stop : ∀ token, rest.head? = some token → more token = false) :
    Takes (many more item) (inputs.flatMap words ++ rest) (inputs.map view) rest := by
  intro given tears
  have enough : inputs.length ≤ (lexemes given).length := by
    rw [lexemes, List.length_map, ← tears.length_eq, List.length_append]
    exact Nat.le_trans series.length_le (Nat.le_add_right _ _)
  cases series.takes_repeatWithin last stop (lexemes given) enough given tears with
  | whole taken left expected same tears run => exact .whole taken left expected same tears run
  | torn present run => exact .torn present run

theorem takes_many1 (series : Series more item inputs words view before) (nonempty : inputs ≠ [])
    (last : before rest) (stop : ∀ token, rest.head? = some token → more token = false) :
    Takes (many1 more item) (inputs.flatMap words ++ rest) (inputs.map view) rest := by
  cases inputs with
  | nil => exact absurd rfl nonempty
  | cons input inputs =>
      rw [List.flatMap_cons, List.append_assoc]
      exact (series.each input List.mem_cons_self _ (series.tail.before_append last)).bind
        ((series.tail.takes_many last stop).bind (takes_pure _ _))

end Series

end Reader

/-! ## Values and types -/

/-- The tokens that words mean. -/
def tokens (words : List Word) : List Token := words.map Word.token

@[simp] theorem tokens_nil : tokens [] = [] := rfl

@[simp] theorem tokens_cons (word : Word) (words : List Word) :
    tokens (word :: words) = word.token :: tokens words := rfl

@[simp] theorem tokens_append (left right : List Word) :
    tokens (left ++ right) = tokens left ++ tokens right := List.map_append

theorem torn_not_mem_tokens (words : List Word) : .torn ∉ tokens words := by
  intro present
  rcases List.mem_map.1 present with ⟨word, _, same⟩
  cases word <;> cases same

theorem tokens_flatMap {α : Type} (items : List α) (words : α → List Word) :
    tokens (items.flatMap words) = items.flatMap fun item => tokens (words item) :=
  List.map_flatMap

namespace Grammar

open Reader

/-- The reader of nested values, if another bracket may be opened. -/
def nestedValue (dynamic : Bool) : Nat → Option (Reader Value)
  | 0 => none
  | depth + 1 => some (value dynamic depth)

theorem value_eq (dynamic : Bool) (depth : Nat) :
    value dynamic depth = valueAround dynamic (nestedValue dynamic depth) := by
  cases depth <;> rfl

theorem value_words_ne_nil (indent : Nat) (value : Value) :
    ∃ first others, tokens (value.words indent) = first :: others ∧
      isNot .closeBracket first = true := by
  cases value with
  | boolean b => cases b <;> exact ⟨_, _, rfl, by decide⟩
  | _ => exact ⟨_, _, rfl, by simp [isNot, Word.token]⟩

theorem takes_member {value : Reader Value} {indent : Nat} {member : String × Value}
    {rest : List Token}
    (takes : Takes value (tokens (member.2.words indent) ++ rest) member.2 rest) :
    Takes (Grammar.member value) (tokens (memberWords indent member) ++ rest) member rest :=
  (takes_name _ _).bind ((takes_symbol _ _).bind (takes.bind (takes_pure _ _)))

theorem stops_at (punctuator : Punctuator) (rest : List Token) (token : Token)
    (first : (Token.punctuator punctuator :: rest).head? = some token) :
    isNot punctuator token = false := by
  cases first
  exact decide_eq_false fun different => different rfl

/-- A string is the one token that may be torn. -/
theorem takes_string (dynamic : Bool) (nested : Option (Reader Value)) (text : String)
    (rest : List Token) :
    Takes (valueAround dynamic nested) (.string text :: rest) (.string text) rest := by
  intro given tears
  rcases List.forall₂_cons_left_iff.1 tears with ⟨seen, left, head, tail, rfl⟩
  cases head with
  | whole => exact .whole [.string text] left rfl rfl tail rfl
  | torn => exact .torn List.mem_cons_self rfl

/-- The words of a value are read as it, whatever follows them. -/
theorem takes_value {dynamic : Bool} {depth : Nat} {v : Value} (fits : v.Fits dynamic depth)
    (indent : Nat) (rest : List Token) :
    Takes (value dynamic depth) (tokens (v.words indent) ++ rest) v rest := by
  induction fits generalizing rest with
  | @reference depth name allowed isName =>
      rw [value_eq]
      apply (takes_next _ _).bind
      cases allowed
      exact (takes_name _ _).map rfl
  | int => rw [value_eq]; exact (takes_next _ _).bind (takes_pure _ _)
  | float => rw [value_eq]; exact (takes_next _ _).bind (takes_pure _ _)
  | string => rw [value_eq]; exact takes_string _ _ _ rest
  | @boolean depth b =>
      rw [value_eq]
      cases b <;> exact (takes_next _ _).bind (takes_pure _ _)
  | null => rw [value_eq]; exact (takes_next _ _).bind (takes_pure _ _)
  | @enum depth name isName plain =>
      rw [value_eq]
      apply (takes_next _ _).bind
      have made : Takes (pure (valueOfName name)) rest (.enum name) rest := by
        rw [plain]
        exact takes_pure _ _
      exact made
  | @list depth items each ih =>
      have series : Series (isNot .closeBracket) (value dynamic depth) items
          (fun item => tokens (item.words indent)) (fun item => item) (fun _ => True) :=
        ⟨fun item present rest _ => ih item present rest,
          fun item _ => value_words_ne_nil indent item, fun _ _ _ => trivial, fun _ => rfl⟩
      have spelled : tokens (Value.words indent (.list items)) ++ rest =
          .punctuator .openBracket :: (items.flatMap (fun item => tokens (item.words indent)) ++
            .punctuator .closeBracket :: rest) := by
        simp [Value.words, Values.words_eq_flatMap, tokens_flatMap, Word.token]
      have many := series.takes_many trivial (stops_at .closeBracket rest)
      rw [List.map_id'] at many
      rw [value_eq, spelled]
      exact (takes_next _ _).bind (many.bind ((takes_symbol _ _).bind (takes_pure _ _)))
  | @object depth members sorted names each ih =>
      have series : Series (isNot .closeBrace) (member (value dynamic depth)) members
          (fun member => tokens (memberWords indent member)) (fun member => member)
          (fun _ => True) :=
        ⟨fun member present rest _ => takes_member (ih member present rest),
          fun member _ => ⟨_, _, rfl, by simp [isNot, Word.token]⟩, fun _ _ _ => trivial,
          fun _ => rfl⟩
      have spelled : tokens (Value.words indent (.object members)) ++ rest =
          .punctuator .openBrace ::
            (members.flatMap (fun member => tokens (memberWords indent member)) ++
              .punctuator .closeBrace :: rest) := by
        simp [Value.words, Members.words_eq_flatMap, tokens_flatMap, Word.token]
      have many := series.takes_many trivial (stops_at .closeBrace rest)
      rw [List.map_id'] at many
      rw [value_eq, spelled, ← Value.ofMembers_of_sorted sorted]
      exact (takes_next _ _).bind (many.bind ((takes_symbol _ _).bind (takes_pure _ _)))

/-- The reader of a nested type, if another bracket may be opened. -/
def nestedType : Nat → Option (Reader Ty)
  | 0 => none
  | depth + 1 => some (type depth)

theorem type_eq (depth : Nat) :
    type depth = (do typeMarked (← typeUnmarked (nestedType depth))) := by
  cases depth <;> exact typeAround_eq _

theorem takes_type_of_unmarked {depth : Nat} {input rest : List Token} {found : Ty}
    (unmarked : Takes (typeUnmarked (nestedType depth)) input found rest)
    (avoids : Avoids [.bang] rest) : Takes (type depth) input found rest := by
  rw [type_eq]
  refine unmarked.bind ((takes_accept_of_avoids avoids).bind ?_)
  exact takes_pure _ _

/-- The words of a type are read as it, unless a mark follows; a type without a mark is read up to
whatever follows. -/
theorem takes_type_aux {depth : Nat} {found : Ty} (fits : found.Fits depth) :
    (∀ rest, Avoids [.bang] rest → Takes (type depth) (tokens found.words ++ rest) found rest) ∧
      ((∀ inner, found ≠ .nonNull inner) → ∀ rest,
        Takes (typeUnmarked (nestedType depth)) (tokens found.words ++ rest) found rest) := by
  induction fits with
  | @named depth name isName =>
      have unmarked (rest : List Token) : Takes (typeUnmarked (nestedType depth))
          (tokens (Ty.named name).words ++ rest) (.named name) rest :=
        (takes_next _ _).bind (takes_pure _ _)
      exact ⟨fun rest => takes_type_of_unmarked (unmarked rest), fun _ => unmarked⟩
  | @list depth item fits ih =>
      have unmarked (rest : List Token) : Takes (typeUnmarked (nestedType (depth + 1)))
          (tokens (Ty.list item).words ++ rest) (.list item) rest := by
        have spelled : tokens (Ty.list item).words ++ rest =
            .punctuator .openBracket ::
              (tokens item.words ++ .punctuator .closeBracket :: rest) := by
          simp [Ty.words, Word.token]
        rw [spelled]
        exact (takes_next _ _).bind ((ih.1 _ (avoids_punctuator (by decide) rest)).bind
          ((takes_symbol _ _).bind (takes_pure _ _)))
      exact ⟨fun rest => takes_type_of_unmarked (unmarked rest), fun _ => unmarked⟩
  | @nonNull depth inner fits notMarked ih =>
      constructor
      · intro rest _
        have spelled : tokens (Ty.nonNull inner).words ++ rest =
            tokens inner.words ++ .punctuator .bang :: rest := by
          simp [Ty.words, Word.token]
        rw [spelled, type_eq]
        exact (ih.2 notMarked _).bind ((takes_accept _ _).bind (takes_pure _ _))
      · exact fun absurdly => absurd rfl (absurdly inner)

theorem takes_type {depth : Nat} {found : Ty} (fits : found.Fits depth) {rest : List Token}
    (avoids : Avoids [.bang] rest) :
    Takes (type depth) (tokens found.words ++ rest) found rest :=
  (takes_type_aux fits).1 rest avoids

/-! ## Arguments, directives and variables -/

theorem takes_bracketed {α : Type} {left right : Punctuator} {content : Nat → Reader α}
    {depth : Nat} {input rest : List Token} {found : α}
    (takes : Takes (content depth) input found (.punctuator right :: rest)) :
    Takes (bracketed left right content (depth + 1)) (.punctuator left :: input)
      (.nowhere, found) rest :=
  (takes_symbol _ _).bind (takes.bind ((takes_symbol _ _).bind (takes_pure _ _)))

/-- A series in parentheses is read as its items. Without items there are no parentheses, and none
may follow. -/
theorem takes_inParens {α β : Type} {item : Nat → Reader α} {depth : Nat} {inputs : List β}
    {words : β → List Word} {view : β → α} {before : List Token → Prop} {rest : List Token}
    (room : inputs ≠ [] → 0 < depth)
    (series : Series (isNot .closeParen) (item (depth - 1)) inputs
      (fun input => tokens (words input)) view before)
    (closes : before (.punctuator .closeParen :: rest)) (avoids : Avoids [.openParen] rest) :
    Takes (inParens item depth) (tokens (parenWords (inputs.flatMap words)) ++ rest)
      (inputs.map view) rest := by
  cases inputs with
  | nil =>
      apply (takes_sees_of_avoids avoids).bind
      exact takes_pure _ _
  | cons input inputs =>
      have opened := Nat.ne_of_gt (room (List.cons_ne_nil _ _))
      rcases Nat.exists_eq_succ_of_ne_zero opened with ⟨depth, rfl⟩
      have nonempty : ((input :: inputs).flatMap words).isEmpty = false := by
        rcases series.starts input List.mem_cons_self with ⟨first, others, same, _⟩
        cases given : words input with
        | nil => rw [given] at same; cases same
        | cons _ _ => rw [List.flatMap_cons, given]; rfl
      have spelled : tokens (parenWords ((input :: inputs).flatMap words)) ++ rest =
          .punctuator .openParen ::
            ((input :: inputs).flatMap (fun input => tokens (words input)) ++
            .punctuator .closeParen :: rest) := by
        rw [parenWords, nonempty]
        simp [tokens_flatMap, Word.token]
      rw [spelled]
      apply (takes_sees _ _).bind
      rw [if_pos rfl]
      exact (takes_bracketed (series.takes_many1 (List.cons_ne_nil _ _) closes
        (stops_at .closeParen rest))).bind (takes_pure _ _)

theorem takes_arguments {depth : Nat} {given : Members} (fit : Members.FitArguments depth given)
    (indent : Nat) {rest : List Token} (avoids : Avoids [.openParen] rest) :
    Takes (arguments depth) (tokens (parenWords (Members.words indent given)) ++ rest) given
      rest := by
  have series : Series (isNot .closeParen) (member (value true (depth - 1))) given
      (fun member => tokens (memberWords indent member)) (fun member => member) (fun _ => True) :=
    ⟨fun member present rest _ => takes_member (takes_value (fit member present).2.2 indent rest),
      fun member _ => ⟨_, _, rfl, by simp [isNot, Word.token]⟩, fun _ _ _ => trivial,
      fun _ => rfl⟩
  have room : given ≠ [] → 0 < depth := by
    intro nonempty
    rcases List.exists_mem_of_ne_nil _ nonempty with ⟨member, present⟩
    exact (fit member present).2.1
  rw [Members.words_eq_flatMap]
  have takes : Takes (arguments depth) _ _ rest := takes_inParens room series trivial avoids
  rwa [List.map_id'] at takes

theorem takes_directive {depth : Nat} {mark : Directive} (fits : mark.Fits depth) (indent : Nat)
    {rest : List Token} (avoids : Avoids [.openParen] rest) :
    Takes (directive depth) (tokens (mark.words indent) ++ rest) mark.erase rest :=
  (takes_symbol _ _).bind ((takes_name _ _).bind
    ((takes_arguments fits.arguments indent avoids).bind (takes_pure _ _)))

theorem takes_directives {depth : Nat} {marks : List Directive}
    (fit : ∀ mark ∈ marks, mark.Fits depth) (indent : Nat) {rest : List Token}
    (avoids : Avoids [.openParen, .atSign] rest) :
    Takes (directives depth) (tokens (marks.flatMap (Directive.words indent)) ++ rest)
      (marks.map Directive.erase) rest := by
  have series : Series (· = .punctuator .atSign) (directive depth) marks
      (fun mark => tokens (mark.words indent)) Directive.erase (Avoids [.openParen]) :=
    ⟨fun mark present rest avoids => takes_directive (fit mark present) indent avoids,
      fun mark _ => ⟨_, _, rfl, by simp [Word.token]⟩,
      fun mark _ rest => avoids_punctuator (by decide) _, fun _ => rfl⟩
  rw [tokens_flatMap]
  apply series.takes_many (avoids.sublist (by simp))
  intro token first
  exact decide_eq_false fun same => avoids .atSign (by simp) (same ▸ first)

theorem takes_variableDefault {depth : Nat} {name : String} {found : Ty} {default : Option Value}
    (fits : ∀ value, default = some value → value.Fits false depth) {rest : List Token}
    (avoids : Avoids [.equals] rest) :
    Takes (variableDefault depth .nowhere name found) (tokens (defaultWords default) ++ rest)
      ⟨.nowhere, name, found, default⟩ rest := by
  cases default with
  | none => exact (takes_accept_of_avoids avoids).bind (takes_pure _ _)
  | some value =>
      apply (takes_accept _ _).bind
      exact ((takes_value (fits value rfl) 0 rest).map rfl).bind (takes_pure _ _)

theorem takes_variableDefinition {depth : Nat} {var : Variable} (fits : var.Fits depth)
    {rest : List Token} (avoids : Avoids [.bang, .equals] rest) :
    Takes (variableDefinition depth) (tokens var.words ++ rest) var.erase rest := by
  rcases var with ⟨pos, name, given, default⟩
  rw [variableDefinition_eq, Variable.words, tokens_append, List.append_assoc]
  refine (takes_symbol _ _).bind ((takes_name _ _).bind ((takes_symbol _ _).bind
    ((takes_type fits.type ?_).bind
      (takes_variableDefault fits.default (avoids.sublist (by simp))))))
  cases default with
  | none => exact avoids.sublist (by simp)
  | some value => exact avoids_punctuator (by decide) _

/-! ## Selections -/

/-- What would continue a selection. -/
def continuations : List Punctuator := [.colon, .openParen, .atSign, .openBrace]

theorem selection_words_eq_cons (indent : Nat) (item : Selection) :
    ∃ first others, tokens (item.words indent) = first :: others ∧
      ((∃ text, first = .name text) ∨ first = .punctuator .spread) := by
  cases item with
  | field head span items =>
      rcases head with ⟨pos, aliasName, name, arguments, directives⟩
      cases aliasName <;> exact ⟨_, _, rfl, .inl ⟨_, rfl⟩⟩
  | spread pos name directives => exact ⟨_, _, rfl, .inr rfl⟩
  | inline pos condition directives span items => exact ⟨_, _, rfl, .inr rfl⟩

/-- Selections are read one after the other, and the braces around them. -/
theorem takes_selectionSet_of_each {depth : Nat} {items : Selections} {indent : Nat}
    (nonempty : items ≠ [])
    (each : ∀ item ∈ items, ∀ rest, Avoids continuations rest →
      Takes (selection depth (selectionSet depth)) (tokens (item.words indent) ++ rest) item.erase
        rest) (rest : List Token) :
    Takes (selectionSet (depth + 1)) (tokens (braceWords (Selections.words indent items)) ++ rest)
      ⟨.nowhere, Selections.erase items⟩ rest := by
  have series : Series (isNot .closeBrace) (selection depth (selectionSet depth)) items
      (fun item => tokens (item.words indent)) Selection.erase (Avoids continuations) := by
    refine ⟨each, fun item _ => ?_, fun item _ rest => ?_, fun _ => rfl⟩
    · rcases selection_words_eq_cons indent item with ⟨first, others, same, ⟨text, rfl⟩ | rfl⟩
      · exact ⟨_, _, same, by simp [isNot]⟩
      · exact ⟨_, _, same, by decide⟩
    · rcases selection_words_eq_cons indent item with ⟨first, others, same, ⟨text, rfl⟩ | rfl⟩
      · rw [same]; exact avoids_name _ _ _
      · rw [same]; exact avoids_punctuator (by decide) _
  have spelled : tokens (braceWords (Selections.words indent items)) ++ rest =
      .punctuator .openBrace :: (items.flatMap (fun item => tokens (item.words indent)) ++
        .punctuator .closeBrace :: rest) := by
    simp [braceWords, Selections.words_eq_flatMap, tokens_flatMap, Word.token]
  rw [spelled, erase_items]
  exact (takes_symbol _ _).bind ((series.takes_many1 nonempty (avoids_punctuator (by decide) _)
    (stops_at .closeBrace rest)).bind ((takes_symbol _ _).bind (takes_pure _ _)))

theorem avoids_parenWords {punctuators : List Punctuator} (absent : .openParen ∉ punctuators)
    (words : List Word) {rest : List Token} (avoids : Avoids punctuators rest) :
    Avoids punctuators (tokens (parenWords words) ++ rest) := by
  cases words with
  | nil => exact avoids
  | cons first others => exact avoids_punctuator absent _

theorem avoids_directives {punctuators : List Punctuator} (absent : .atSign ∉ punctuators)
    (indent : Nat) (marks : List Directive) {rest : List Token} (avoids : Avoids punctuators rest) :
    Avoids punctuators (tokens (marks.flatMap (Directive.words indent)) ++ rest) := by
  cases marks with
  | nil => exact avoids
  | cons first others => exact avoids_punctuator absent _

theorem takes_fieldBehind {depth : Nat} {set : Reader SelectionSet} {first : String}
    {second : Option String} {given : Members} {marks : List Directive} {indent : Nat}
    {middle rest : List Token} {result : Selection} (arguments : Members.FitArguments depth given)
    (directives : ∀ mark ∈ marks, mark.Fits depth) (avoids : Avoids [.openParen, .atSign] middle)
    (below : Takes (fieldBelow set .nowhere
      (headOfNames .nowhere first second given (marks.map Directive.erase))) middle result rest) :
    Takes (fieldBehind depth set .nowhere first second)
      (tokens (parenWords (Members.words indent given)) ++
        (tokens (marks.flatMap (Directive.words indent)) ++ middle)) result rest :=
  (takes_arguments arguments indent
    (avoids_directives (by decide) indent marks (avoids.sublist (by simp)))).bind
      ((takes_directives directives indent avoids).bind below)

/-- The words of a field's head are read, and what is below it decides the rest. -/
theorem takes_head {depth : Nat} {set : Reader SelectionSet} {head : FieldHead}
    (fits : head.Fits depth) (indent : Nat) {middle rest : List Token} {result : Selection}
    (avoids : Avoids [.colon, .openParen, .atSign] middle)
    (below : Takes (fieldBelow set .nowhere head.erase) middle result rest) :
    Takes (selection depth set) (tokens (head.words indent) ++ middle) result rest := by
  rcases head with ⟨pos, aliasName, text, given, marks⟩
  have narrow : Avoids [.openParen, .atSign] middle := avoids.sublist (by simp)
  let behind := tokens (parenWords (Members.words indent given)) ++
    (tokens (marks.flatMap (Directive.words indent)) ++ middle)
  have spelled : tokens (FieldHead.words indent ⟨pos, aliasName, text, given, marks⟩) ++ middle =
      tokens (aliasWords aliasName) ++ .name text :: behind := by
    simp [FieldHead.words, Word.token, behind]
  rw [spelled]
  cases aliasName with
  | none =>
      apply (takes_next _ _).bind
      have noAlias : Avoids [.colon] behind :=
        avoids_parenWords (by decide) _ (avoids_directives (by decide) indent marks
          (avoids.sublist (by simp)))
      change Takes (field depth set .nowhere text) behind result rest
      rw [field_eq]
      exact (takes_accept_of_avoids noAlias).bind
        (takes_fieldBehind fits.arguments fits.directives narrow below)
  | some label =>
      apply (takes_next _ _).bind
      change Takes (field depth set .nowhere label)
        (.punctuator .colon :: .name text :: behind) result rest
      rw [field_eq]
      apply (takes_accept _ _).bind
      rw [if_pos rfl]
      apply ((takes_name _ _).map rfl).bind
      exact takes_fieldBehind fits.arguments fits.directives narrow below

theorem takes_inline {depth : Nat} {set : Reader SelectionSet} {condition : Option String}
    {marks : List Directive} {indent : Nat} {middle rest : List Token} {found : SelectionSet}
    (names : ∀ name, condition = some name → IsName name)
    (directives : ∀ mark ∈ marks, mark.Fits depth)
    (below : Takes set (.punctuator .openBrace :: middle) found rest) :
    Takes (selection depth set)
      (.punctuator .spread :: (tokens (conditionWords condition) ++
        (tokens (marks.flatMap (Directive.words indent)) ++
          .punctuator .openBrace :: middle)))
      (.inline .nowhere condition (marks.map Directive.erase) found.span found.items) rest := by
  have inner : Takes (inline depth set .nowhere condition)
      (tokens (marks.flatMap (Directive.words indent)) ++ .punctuator .openBrace :: middle)
      (.inline .nowhere condition (marks.map Directive.erase) found.span found.items) rest :=
    (takes_directives directives indent (avoids_punctuator (by decide) _)).bind
      (below.bind (takes_pure _ _))
  apply (takes_next _ _).bind
  change Takes (spread depth set .nowhere) _ _ _
  cases condition with
  | none =>
      have unnamed : Takes name? (tokens (marks.flatMap (Directive.words indent)) ++
          .punctuator .openBrace :: middle) none (tokens (marks.flatMap (Directive.words indent)) ++
          .punctuator .openBrace :: middle) := by
        cases marks with
        | nil => exact takes_name?_of_punctuator _ _
        | cons first others => exact takes_name?_of_punctuator _ _
      exact unnamed.bind inner
  | some name => exact (takes_name?_of_name _ _).bind ((takes_name _ _).bind inner)

/-- The words of a selection are read as it, unless something follows that would continue it. -/
theorem takes_selection {depth : Nat} {item : Selection} (fits : item.Fits depth) (indent : Nat)
    (rest : List Token) (avoids : Avoids continuations rest) :
    Takes (selection depth (selectionSet depth)) (tokens (item.words indent) ++ rest) item.erase
      rest := by
  induction fits generalizing indent rest with
  | leaf fits =>
      rw [Selection.words, if_pos List.isEmpty_nil, List.append_nil]
      apply takes_head fits indent (avoids.sublist (by decide))
      exact (takes_sees_of_avoids (avoids.sublist (by decide))).bind (takes_pure _ _)
  | @field depth head span items fits nonempty each ih =>
      rw [Selection.words, if_neg (mt List.isEmpty_iff.1 nonempty), tokens_append,
        List.append_assoc]
      apply takes_head fits indent (avoids_punctuator (by decide) _)
      apply (takes_sees _ _).bind
      rw [if_pos rfl]
      exact (takes_selectionSet_of_each nonempty
        (fun item present rest => ih item present (indent + 2) rest) rest).bind (takes_pure _ _)
  | @spread depth pos name directives isName notOn marks =>
      apply (takes_next _ _).bind
      change Takes (spread depth _ .nowhere) (.name name :: (tokens
        (directives.flatMap (Directive.words indent)) ++ rest)) _ rest
      refine (takes_name?_of_name _ _).bind ?_
      split
      · next same => exact absurd (Option.some.inj same) notOn
      · next text _ same =>
          cases same
          exact (takes_directives marks indent (avoids.sublist (by decide))).bind (takes_pure _ _)
      · next absent => cases absent
  | @inline depth pos condition directives span items names marks nonempty each ih =>
      have spelled : tokens ((Selection.inline pos condition directives span items).words indent) ++
          rest = .punctuator .spread :: (tokens (conditionWords condition) ++
            (tokens (directives.flatMap (Directive.words indent)) ++
              (tokens (braceWords (Selections.words (indent + 2) items)) ++ rest))) := by
        simp [Selection.words, Word.token]
      rw [spelled]
      exact takes_inline names marks (takes_selectionSet_of_each nonempty
        (fun item present rest => ih item present (indent + 2) rest) rest)

theorem takes_selectionSet {depth : Nat} {set : SelectionSet} (fits : set.Fits depth)
    (rest : List Token) :
    Takes (selectionSet depth) (tokens set.words ++ rest) set.erase rest := by
  rcases Nat.exists_eq_succ_of_ne_zero (Nat.ne_of_gt fits.room) with ⟨depth, rfl⟩
  exact takes_selectionSet_of_each fits.nonempty
    (fun item present rest => takes_selection (fits.each item present) 2 rest) rest

/-! ## Definitions -/

theorem takes_variableDefinitions {vars : List Variable}
    (fit : ∀ var ∈ vars, var.Fits (nestingLimit - 1)) {rest : List Token}
    (avoids : Avoids [.openParen] rest) :
    Takes (inParens variableDefinition nestingLimit)
      (tokens (parenWords (vars.flatMap Variable.words)) ++ rest) (vars.map Variable.erase)
      rest := by
  have series : Series (isNot .closeParen) (variableDefinition (nestingLimit - 1)) vars
      (fun var => tokens var.words) Variable.erase (Avoids [.bang, .equals]) :=
    ⟨fun var present rest avoids => takes_variableDefinition (fit var present) avoids,
      fun var _ => ⟨_, _, rfl, by decide⟩, fun var _ rest => avoids_punctuator (by decide) _,
      fun _ => rfl⟩
  exact takes_inParens (fun _ => by decide) series (avoids_punctuator (by decide) _) avoids

/-- What stands behind the keyword of an operation is read as the operation. -/
theorem takes_operation {header : OperationHeader} {set : SelectionSet} (headerFits : header.Fits)
    (setFits : set.Fits nestingLimit) (rest : List Token) :
    Takes (operation .nowhere header.kind)
      (tokens (nameWords header.name) ++
        (tokens (parenWords (header.variableDefinitions.flatMap Variable.words)) ++
          (tokens (header.directives.flatMap (Directive.words 0)) ++ (tokens set.words ++ rest))))
      ⟨some header.erase, set.erase⟩ rest := by
  rcases header with ⟨pos, kind, text, vars, marks⟩
  let afterVariables := tokens (marks.flatMap (Directive.words 0)) ++ (tokens set.words ++ rest)
  let afterName := tokens (parenWords (vars.flatMap Variable.words)) ++ afterVariables
  have braced (absent : List Punctuator) (notBrace : .openBrace ∉ absent) :
      Avoids absent (tokens set.words ++ rest) :=
    show Avoids absent (.punctuator .openBrace :: _) from avoids_punctuator notBrace _
  have named : Takes name? (tokens (nameWords text) ++ afterName) text afterName := by
    cases text with
    | some name => exact takes_name?_of_name _ _
    | none =>
        cases given : vars.flatMap Variable.words with
        | cons first others =>
            simp only [afterName, given]
            exact takes_name?_of_punctuator _ _
        | nil =>
            simp only [afterName, afterVariables, given]
            cases marks with
            | cons first others => exact takes_name?_of_punctuator _ _
            | nil => exact takes_name?_of_punctuator _ _
  have defined : Takes (inParens variableDefinition nestingLimit) afterName
      (vars.map Variable.erase) afterVariables :=
    takes_variableDefinitions headerFits.variableDefinitions
      (avoids_directives (by decide) 0 marks (braced _ (by decide)))
  have marked : Takes (directives nestingLimit) afterVariables (marks.map Directive.erase)
      (tokens set.words ++ rest) :=
    takes_directives headerFits.directives 0 (braced _ (by decide))
  exact named.bind (defined.bind (marked.bind ((takes_selectionSet setFits rest).bind
    (takes_pure _ _))))

theorem takes_fragment {given : Fragment} (fits : given.Fits) (rest : List Token) :
    Takes (fragment .nowhere)
      (.name given.name :: .name "on" :: .name given.typeCondition ::
        (tokens (given.directives.flatMap (Directive.words 0)) ++
          (tokens given.selectionSet.words ++ rest))) given.erase rest :=
  (takes_name _ _).bind ((takes_expect _ _).bind ((takes_name _ _).bind
    ((takes_directives fits.directives 0 (avoids_punctuator (by decide) _)).bind
      ((takes_selectionSet fits.selectionSet rest).bind (takes_pure _ _)))))

/-- The words of a definition are read as it, whatever follows. -/
theorem takes_definition {given : Definition} (fits : given.Fits) (rest : List Token) :
    Takes definition (tokens given.words ++ rest) given.erase rest := by
  cases given with
  | operation op =>
      rcases op with ⟨header, set⟩
      cases header with
      | none =>
          apply (takes_sees _ _).bind
          rw [if_pos rfl]
          exact (takes_selectionSet fits.selectionSet rest).bind (takes_pure _ _)
      | some header =>
          have body := takes_operation (fits.header header rfl) fits.selectionSet rest
          have spelled : tokens (Definition.operation ⟨some header, set⟩).words ++ rest =
              .name header.kind.keyword :: (tokens (nameWords header.name) ++
                (tokens (parenWords (header.variableDefinitions.flatMap Variable.words)) ++
                  (tokens (header.directives.flatMap (Directive.words 0)) ++
                    (tokens set.words ++ rest)))) := by
            simp [Definition.words, Operation.words, OperationHeader.words, Word.token]
          rw [spelled]
          refine (takes_sees_of_avoids (avoids_name _ _ _)).bind ((takes_next _ _).bind ?_)
          cases kind : header.kind <;> rw [kind] at body <;> exact body.map rfl
  | fragment fr =>
      have spelled : tokens (Definition.fragment fr).words ++ rest =
          .name "fragment" :: .name fr.name :: .name "on" :: .name fr.typeCondition ::
            (tokens (fr.directives.flatMap (Directive.words 0)) ++
              (tokens fr.selectionSet.words ++ rest)) := by
        simp [Definition.words, Fragment.words, Word.token]
      rw [spelled]
      exact (takes_sees_of_avoids (avoids_name _ _ _)).bind ((takes_next _ _).bind
        ((takes_fragment fits rest).map rfl))

/-- The words of a document are read as the document. -/
theorem takes_document {given : Document} (fits : given.Fits) :
    Takes document (tokens given.words) given.erase [] := by
  have series : Series (fun _ => true) definition given.definitions
      (fun given => tokens given.words) Definition.erase (fun _ => True) := by
    refine ⟨fun given present rest _ => takes_definition (fits.each given present) rest,
      fun given _ => ?_, fun _ _ _ => trivial, fun _ => rfl⟩
    cases given with
    | operation op =>
        rcases op with ⟨header, set⟩
        cases header <;> exact ⟨_, _, rfl, rfl⟩
    | fragment fr => exact ⟨_, _, rfl, rfl⟩
  have stop : ∀ token : Token, ([] : List Token).head? = some token → true = false :=
    fun _ none => (nomatch none)
  have read := series.takes_many1 fits.nonempty trivial stop
  rw [List.append_nil, ← tokens_flatMap] at read
  exact read.map rfl

theorem run_document {given : Document} (fits : given.Fits) :
    document (lexemes (tokens given.words)) = .ok (given.erase, []) := by
  have tears : List.Forall₂ Token.Tears (tokens given.words) (tokens given.words) :=
    List.forall₂_same.2 fun token _ => .whole token
  rcases (takes_document fits).ending (torn_not_mem_tokens _) tears with ⟨_, run⟩ | ⟨torn, _⟩
  · exact run
  · exact absurd torn (torn_not_mem_tokens _)

end Grammar

end PersistedDocuments.GraphQL
