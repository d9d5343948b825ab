import PersistedDocuments.Proofs.GraphQL.Written

/-!
# The layout of a printed document

A printed document consists of its words, in their order, with nothing but blanks, commas and line
feeds between them, and with a character that ends a token behind each word that needs one.
-/

namespace PersistedDocuments.GraphQL

/-- A character that the printer writes between words. -/
def isGap (c : Char) : Bool := c = ' ' || c = ',' || c = '\n'

/-- The text is empty or goes on with a character that ends every token. -/
def Stops (cs : List Char) : Prop := ∀ c, cs.head? = some c → Number.isEnd c = true

theorem stops_nil : Stops [] := fun _ none => (nomatch none)

theorem stops_cons {c : Char} (ends : Number.isEnd c = true) (cs : List Char) :
    Stops (c :: cs) := by
  intro first same
  cases same
  exact ends

theorem Stops.append {left right : List Char} (first : Stops left) (second : Stops right) :
    Stops (left ++ right) := by
  cases left with
  | nil => exact second
  | cons c cs => exact stops_cons (first c rfl) _

/-- A text that consists of words and gaps. A word other than a punctuator stands before the end or
before a character that ends it. -/
inductive Laid : List Char → List Word → Prop
  | nil : Laid [] []
  | gap {c cs words} (isGap : isGap c = true) (laid : Laid cs words) : Laid (c :: cs) words
  | symbol {punctuator cs words} (laid : Laid cs words) :
      Laid (punctuator.chars ++ cs) (.symbol punctuator :: words)
  | word {word cs words} (stops : Stops cs) (laid : Laid cs words) :
      Laid (word.chars ++ cs) (word :: words)

/-- The text lays out the words in front of everything that ends a token. -/
def Prints (cs : List Char) (words : List Word) : Prop :=
  ∀ rest more, Stops rest → Laid rest more → Laid (cs ++ rest) (words ++ more)

namespace Prints

variable {left right cs : List Char} {leftWords rightWords words : List Word}

theorem nil : Prints [] [] := fun _ _ _ laid => laid

theorem word (word : Word) : Prints word.chars [word] := by
  intro rest more stops laid
  exact .word stops laid

theorem symbol (punctuator : Punctuator) : Prints punctuator.chars [.symbol punctuator] := by
  intro rest more _ laid
  exact .symbol laid

/-- Two texts one after the other, if the second ends what the first leaves open. -/
theorem append (first : Prints left leftWords) (stops : Stops right)
    (second : Prints right rightWords) : Prints (left ++ right) (leftWords ++ rightWords) := by
  intro rest more restStops laid
  rw [List.append_assoc, List.append_assoc]
  exact first _ _ (stops.append restStops) (second rest more restStops laid)

theorem symbol_append (punctuator : Punctuator) (second : Prints right rightWords) :
    Prints (punctuator.chars ++ right) (.symbol punctuator :: rightWords) := by
  intro rest more restStops laid
  rw [List.append_assoc]
  exact .symbol (second rest more restStops laid)

theorem gap {c : Char} (isGap : isGap c = true) (prints : Prints cs words) :
    Prints (c :: cs) words := by
  intro rest more stops laid
  exact .gap isGap (prints rest more stops laid)

theorem blank (prints : Prints cs words) : Prints (' ' :: cs) words := prints.gap (by decide)

/-- A text in front of a gap. -/
theorem before_gap {c : Char} (isGap : GraphQL.isGap c = true) (ends : Number.isEnd c = true)
    (first : Prints left leftWords) (second : Prints right rightWords) :
    Prints (left ++ c :: right) (leftWords ++ rightWords) :=
  first.append (stops_cons ends _) (second.gap isGap)

end Prints

/-! ## Lists with commas -/

theorem commas_cons_cons (first second : List Char) (rest : List (List Char)) :
    commas (first :: second :: rest) = first ++ ',' :: ' ' :: commas (second :: rest) := by
  simp [commas, List.intercalate]

theorem commas_singleton (text : List Char) : commas [text] = text := by
  simp [commas, List.intercalate]

/-- One more item in front of a list with commas. -/
theorem Prints.commas_cons {first : List Char} {firstWords words : List Word}
    {rest : List (List Char)} (head : Prints first firstWords) (tail : Prints (commas rest) words)
    (empty : rest = [] → words = []) : Prints (commas (first :: rest)) (firstWords ++ words) := by
  cases rest with
  | nil =>
      rw [empty rfl, List.append_nil, commas_singleton]
      exact head
  | cons second others =>
      rw [commas_cons_cons]
      exact head.before_gap (by decide) (by decide) (tail.blank)

theorem Prints.parens {texts : List (List Char)} {words : List Word}
    (inner : Prints (commas texts) words) (empty : texts.isEmpty = words.isEmpty) :
    Prints (GraphQL.parens texts) (parenWords words) := by
  rw [GraphQL.parens, parenWords, empty]
  split
  · exact .nil
  · exact (inner.append (stops_cons (by decide) _) (.symbol .closeParen)).symbol_append .openParen

theorem stops_parens (texts : List (List Char)) : Stops (parens texts) := by
  rw [parens]
  split
  · exact stops_nil
  · exact stops_cons (by decide) _

/-! ## Phrases -/

mutual
theorem Value.prints (indent : Nat) :
    ∀ value : Value, Prints (value.chars indent) (value.words indent)
  | .variable name => (Prints.word (.name name)).symbol_append .dollar
  | .int value => Prints.word (.int value)
  | .float value => Prints.word (.float value)
  | .string value => Prints.word (.string indent value)
  | .boolean true => Prints.word (.name "true")
  | .boolean false => Prints.word (.name "false")
  | .null => Prints.word (.name "null")
  | .enum name => Prints.word (.name name)
  | .list items =>
    ((Values.prints indent items).append (stops_cons (by decide) _)
      (.symbol .closeBracket)).symbol_append .openBracket
  | .object members =>
    ((Members.prints indent members).append (stops_cons (by decide) _)
      (.symbol .closeBrace)).symbol_append .openBrace

theorem Values.prints (indent : Nat) :
    ∀ values : Values, Prints (commas (Values.texts indent values)) (Values.words indent values)
  | [] => .nil
  | value :: rest => by
      refine (Value.prints indent value).commas_cons (Values.prints indent rest) fun empty => ?_
      cases rest with
      | nil => rfl
      | cons _ _ => cases empty

theorem Members.prints (indent : Nat) :
    ∀ members : Members,
      Prints (commas (Members.texts indent members)) (Members.words indent members)
  | [] => .nil
  | (name, value) :: rest => by
      have member : Prints (name.toList ++ ':' :: ' ' :: value.chars indent)
          (.name name :: .symbol .colon :: value.words indent) :=
        (Prints.word (.name name)).append (stops_cons (by decide) _)
          (((Value.prints indent value).blank).symbol_append .colon)
      exact member.commas_cons (Members.prints indent rest) fun empty => by
        cases rest with
        | nil => rfl
        | cons _ _ => cases empty
end

theorem Ty.prints (type : Ty) : Prints type.chars type.words := by
  induction type with
  | named name => exact .word (.name name)
  | list item ih =>
      have closed := ih.append (stops_cons (by decide) _) (.symbol .closeBracket)
      exact closed.symbol_append .openBracket
  | nonNull type ih => exact ih.append (stops_cons (by decide) _) (.symbol .bang)

theorem Members.isEmpty_texts (indent : Nat) (members : Members) :
    (Members.texts indent members).isEmpty = (Members.words indent members).isEmpty := by
  cases members <;> rfl

theorem Members.prints_parens (indent : Nat) (members : Members) :
    Prints (parens (Members.texts indent members)) (parenWords (Members.words indent members)) :=
  (Members.prints indent members).parens (Members.isEmpty_texts indent members)

theorem Directive.prints (indent : Nat) (directive : Directive) :
    Prints (directive.chars indent) (directive.words indent) :=
  ((Prints.word (.name directive.name)).append (stops_parens _)
    (Members.prints_parens indent directive.arguments)).symbol_append .atSign

theorem stops_directivesChars (indent : Nat) (directives : List Directive) :
    Stops (directivesChars indent directives) := by
  cases directives with
  | nil => exact stops_nil
  | cons _ _ => exact stops_cons (by decide) _

theorem Directive.prints_all (indent : Nat) (directives : List Directive) :
    Prints (directivesChars indent directives) (directives.flatMap (Directive.words indent)) := by
  induction directives with
  | nil => exact .nil
  | cons directive rest ih =>
      exact ((directive.prints indent).blank).append (stops_directivesChars indent rest) ih

theorem Variable.prints (var : Variable) : Prints var.chars var.words := by
  rcases var with ⟨pos, name, type, default⟩
  have typed : Prints (name.toList ++ ':' :: ' ' :: type.chars)
      (.name name :: .symbol .colon :: type.words) :=
    (Prints.word (.name name)).append (stops_cons (by decide) _)
      ((type.prints.blank).symbol_append .colon)
  have start := typed.symbol_append .dollar
  cases default with
  | none =>
      have whole := start.append stops_nil .nil
      simpa [Variable.chars, Variable.words, defaultWords, Punctuator.chars] using whole
  | some value =>
      have assigned : Prints (' ' :: '=' :: ' ' :: value.chars 0)
          (.symbol .equals :: value.words 0) :=
        (((value.prints 0).blank).symbol_append .equals).blank
      have whole := start.append (stops_cons (by decide) _) assigned
      simpa [Variable.chars, Variable.words, defaultWords, Punctuator.chars] using whole

theorem FieldHead.prints (indent : Nat) (head : FieldHead) :
    Prints (head.chars indent) (head.words indent) := by
  rcases head with ⟨pos, aliasName, name, arguments, directives⟩
  have named : Prints (name.toList ++ (parens (Members.texts indent arguments) ++
      directivesChars indent directives)) (.name name ::
        (parenWords (Members.words indent arguments) ++
          directives.flatMap (Directive.words indent))) :=
    (Prints.word (.name name)).append
      ((stops_parens _).append (stops_directivesChars indent directives))
      ((Members.prints_parens indent arguments).append (stops_directivesChars indent directives)
        (Directive.prints_all indent directives))
  cases aliasName with
  | none => simpa [FieldHead.chars, FieldHead.words, aliasWords] using named
  | some label =>
      have whole := (Prints.word (.name label)).append (stops_cons (by decide) _)
        ((named.blank).symbol_append .colon)
      simpa [FieldHead.chars, FieldHead.words, aliasWords, Word.chars, Punctuator.chars] using whole

/-! ## Lines -/

/-- The text lays out the words in front of anything: it ends what it leaves open itself. -/
def Closed (cs : List Char) (words : List Word) : Prop :=
  ∀ rest more, Laid rest more → Laid (cs ++ rest) (words ++ more)

namespace Closed

variable {left right cs : List Char} {leftWords rightWords words : List Word}

theorem nil : Closed [] [] := fun _ _ laid => laid

theorem append (first : Closed left leftWords) (second : Closed right rightWords) :
    Closed (left ++ right) (leftWords ++ rightWords) := by
  intro rest more laid
  rw [List.append_assoc, List.append_assoc]
  exact first _ _ (second rest more laid)

theorem symbol_append (punctuator : Punctuator) (second : Closed right rightWords) :
    Closed (punctuator.chars ++ right) (.symbol punctuator :: rightWords) := by
  intro rest more laid
  rw [List.append_assoc]
  exact .symbol (second rest more laid)

theorem gap {c : Char} (isGap : isGap c = true) (closed : Closed cs words) :
    Closed (c :: cs) words := by
  intro rest more laid
  exact .gap isGap (closed rest more laid)

theorem blank (closed : Closed cs words) : Closed (' ' :: cs) words := closed.gap (by decide)

theorem lineFeed (closed : Closed cs words) : Closed ('\n' :: cs) words := closed.gap (by decide)

theorem blanks (n : Nat) (closed : Closed cs words) :
    Closed (BlockString.blanks n ++ cs) words := by
  induction n with
  | zero => exact closed
  | succ n ih => exact ih.blank

theorem toLaid (closed : Closed cs words) : Laid cs words := by
  have laid := closed [] [] .nil
  rwa [List.append_nil, List.append_nil] at laid

end Closed

/-- A text in front of one that begins with the end of a token. -/
theorem Prints.append_closed {left right : List Char} {leftWords rightWords : List Word} {c : Char}
    (first : Prints left leftWords) (ends : Number.isEnd c = true)
    (second : Closed (c :: right) rightWords) :
    Closed (left ++ c :: right) (leftWords ++ rightWords) := by
  intro rest more laid
  rw [List.append_assoc, List.append_assoc]
  exact first _ _ (stops_cons ends _) (second rest more laid)

/-- A line on its own. -/
theorem Prints.line {cs : List Char} {words : List Word} (indent : Nat) (prints : Prints cs words) :
    Closed (BlockString.blanks indent ++ (cs ++ ['\n'])) words := by
  have whole := (prints.append_closed (by decide) Closed.nil.lineFeed).blanks indent
  rwa [List.append_nil] at whole

/-- A text in front of lines between braces. -/
theorem Closed.braces {lines : List Char} {words : List Word} (indent : Nat)
    (inner : Closed lines words) : Closed (GraphQL.braces indent lines) (braceWords words) := by
  have closing : Closed (BlockString.blanks indent ++ ['}', '\n']) [.symbol .closeBrace] :=
    (Closed.nil.lineFeed.symbol_append .closeBrace).blanks indent
  have whole := (inner.append closing).lineFeed.symbol_append .openBrace
  simpa [GraphQL.braces, braceWords, Punctuator.chars] using whole

theorem Prints.condition (name : String) :
    Prints (" on ".toList ++ name.toList) [.name "on", .name name] :=
  ((Prints.word (.name "on")).append (stops_cons (by decide) _)
    (Prints.word (.name name)).blank).blank

mutual
theorem Selection.closed (indent : Nat) :
    ∀ selection : Selection, Closed (selection.chars indent) (selection.words indent)
  | .field head span items => by
      rw [Selection.chars, Selection.words, List.append_assoc]
      split
      · rw [List.append_nil]
        exact (head.prints indent).line indent
      · have below := ((Selections.closed (indent + 2) items).braces indent).blank
        exact ((head.prints indent).append_closed (by decide) below).blanks indent
  | .spread pos name directives => by
      have named := (Prints.word (.name name)).append (stops_directivesChars indent directives)
        (Directive.prints_all indent directives)
      have line := (named.symbol_append .spread).line indent
      simpa [Selection.chars, Selection.words, Word.chars, Punctuator.chars] using line
  | .inline pos condition directives span items => by
      have below := ((Selections.closed (indent + 2) items).braces indent).blank
      cases condition with
      | none =>
          have marked := (Directive.prints_all indent directives).append_closed (by decide) below
          have whole := (marked.symbol_append .spread).blanks indent
          simpa [Selection.chars, Selection.words, conditionWords, Punctuator.chars] using whole
      | some name =>
          have marked := (Prints.condition name).append (stops_directivesChars indent directives)
            (Directive.prints_all indent directives)
          have braced := marked.append_closed (by decide) below
          have whole := (braced.symbol_append .spread).blanks indent
          simpa [Selection.chars, Selection.words, conditionWords, Punctuator.chars] using whole

theorem Selections.closed (indent : Nat) :
    ∀ items : Selections, Closed (Selections.chars indent items) (Selections.words indent items)
  | [] => .nil
  | selection :: rest => (Selection.closed indent selection).append (Selections.closed indent rest)
end

/-! ## Documents -/

theorem SelectionSet.closed (set : SelectionSet) : Closed set.chars set.words :=
  (Selections.closed 2 set.items).braces 0

theorem Variable.isEmpty_words (vars : List Variable) :
    (vars.flatMap Variable.words).isEmpty = vars.isEmpty := by
  cases vars <;> rfl

theorem Variable.prints_commas (vars : List Variable) :
    Prints (commas (vars.map Variable.chars)) (vars.flatMap Variable.words) := by
  induction vars with
  | nil => exact .nil
  | cons var rest ih =>
      apply var.prints.commas_cons ih
      intro empty
      rw [List.map_eq_nil_iff.1 empty]
      rfl

theorem Variable.stops_flatten (vars : List Variable) :
    Stops (vars.map Variable.chars).flatten := by
  cases vars with
  | nil => exact stops_nil
  | cons var rest => exact stops_cons (by decide) _

theorem Variable.prints_flatten (vars : List Variable) :
    Prints (vars.map Variable.chars).flatten (vars.flatMap Variable.words) := by
  induction vars with
  | nil => exact .nil
  | cons var rest ih => exact var.prints.append (Variable.stops_flatten rest) ih

namespace OperationHeader

variable {header : OperationHeader}

theorem stops_variablesChars (header : OperationHeader) : Stops header.variablesChars := by
  rw [variablesChars]
  split
  · split
    · exact stops_nil
    · exact stops_cons (by decide) _
  · exact stops_parens _

/-- Variables that are written are laid out, with commas or, in a subscription, without. -/
theorem prints_variables (written : ¬header.HidesVariables) :
    Prints header.variablesChars
      (parenWords (header.variableDefinitions.flatMap Variable.words)) := by
  rcases header with ⟨pos, kind, name, vars, directives⟩
  have isEmpty : (vars.map Variable.chars).isEmpty = (vars.flatMap Variable.words).isEmpty := by
    rw [Variable.isEmpty_words, List.isEmpty_map]
  have listed := (Variable.prints_commas vars).parens isEmpty
  cases kind with
  | query => exact listed
  | mutation => exact listed
  | subscription =>
      rw [variablesChars]
      dsimp only
      split
      · next hidden =>
          have none : vars = [] := by
            rcases Bool.or_eq_true_iff.1 hidden with nameless | empty
            · by_contra given
              exact written ⟨rfl, Option.isNone_iff_eq_none.1 nameless, given⟩
            · exact List.map_eq_nil_iff.1 (List.isEmpty_iff.1 empty)
          rw [none]
          exact .nil
      · next shown =>
          have nonempty : (vars.flatMap Variable.words).isEmpty = false := by
            rw [← isEmpty]
            exact (Bool.or_eq_false_iff.1 (Bool.not_eq_true _ ▸ shown)).2
          rw [parenWords, nonempty]
          exact ((Variable.prints_flatten vars).append (stops_cons (by decide) _)
            (.symbol .closeParen)).symbol_append .openParen

theorem prints (written : ¬header.HidesVariables) : Prints header.chars header.words := by
  have marks : Prints (directivesChars 0 header.directives ++ [' '])
      (header.directives.flatMap (Directive.words 0)) := by
    have whole := (Directive.prints_all 0 header.directives).append (stops_cons (by decide) _)
      Prints.nil.blank
    rwa [List.append_nil] at whole
  have stops : Stops (directivesChars 0 header.directives ++ [' ']) :=
    (stops_directivesChars 0 _).append (stops_cons (by decide) _)
  have behind := (prints_variables written).append stops marks
  have stopsBehind := (stops_variablesChars header).append stops
  have keyword : Prints header.kind.keyword.toList [.name header.kind.keyword] :=
    .word (.name header.kind.keyword)
  rw [chars, words]
  cases header.name with
  | none => simpa [nameWords] using keyword.append stopsBehind behind
  | some name =>
      have named := (Prints.word (.name name)).append stopsBehind behind
      simpa [nameWords, Word.chars] using keyword.append (stops_cons (by decide) _) named.blank

end OperationHeader

/-- A definition that hides no variables is laid out in front of anything. -/
theorem Definition.closed {definition : Definition}
    (written : ∀ operation header, definition = .operation operation →
      operation.header = some header → ¬header.HidesVariables) :
    Closed definition.chars definition.words := by
  cases definition with
  | operation op =>
      rcases op with ⟨header, set⟩
      cases header with
      | none => exact set.closed
      | some header =>
          exact (OperationHeader.prints (written _ header rfl rfl)).append_closed (by decide)
            set.closed
  | fragment fr =>
      have conditioned := (Prints.condition fr.typeCondition).append
        (stops_directivesChars 0 fr.directives) (Directive.prints_all 0 fr.directives)
      have stops : Stops (" on ".toList ++ fr.typeCondition.toList ++
          directivesChars 0 fr.directives) := stops_cons (by decide) _
      have named := (Prints.word (.name fr.name)).append stops conditioned
      have whole := ((Prints.word (.name "fragment")).append (stops_cons (by decide) _)
        named.blank).append_closed (by decide) fr.selectionSet.closed.blank
      have keyword : "fragment ".toList = "fragment".toList ++ [' '] := by decide
      rw [Definition.chars, Fragment.chars_eq, keyword]
      simpa only [Word.chars, List.append_assoc, List.cons_append, List.nil_append,
        Definition.words, Fragment.words] using whole

theorem Document.closed_definitions {definitions : List Definition}
    (each : ∀ definition ∈ definitions, Closed definition.chars definition.words) :
    Closed (['\n'].intercalate (definitions.map Definition.chars))
      (definitions.flatMap Definition.words) := by
  induction definitions with
  | nil => exact .nil
  | cons first rest ih =>
      have head := each first List.mem_cons_self
      have tail := ih fun definition later => each definition (List.mem_cons_of_mem _ later)
      cases rest with
      | nil =>
          have single := head.append .nil
          simpa using single
      | cons second others =>
          have both := head.append tail.lineFeed
          simpa using both

/-- The printed form of a document lays out its words, unless variables are left out. -/
theorem Document.laid {document : Document} (written : ¬document.HidesVariables) :
    Laid document.chars document.words := by
  refine (closed_definitions fun definition present => Definition.closed ?_).toLaid
  intro operation header same found hides
  exact written ⟨operation, document.mem_operations.2 (same ▸ present), header, found, hides⟩

end PersistedDocuments.GraphQL
