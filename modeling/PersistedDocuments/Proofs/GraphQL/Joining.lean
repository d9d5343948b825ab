import PersistedDocuments.Proofs.Formatting
import PersistedDocuments.Proofs.GraphQL.Continuation

/-!
# Texts joined by line feeds

A line feed ends every token but a string, and every comment. So a text that is complete has the
same tokens with a line feed and another text behind it, and texts that are documents on their own
are, joined by line feeds, the document with all their definitions.
-/

namespace PersistedDocuments.GraphQL

/-! ## One token -/

theorem QuotedString.body?_append {cs body rest : List Char}
    (found : body? cs = some (body, rest)) (further : List Char) :
    body? (cs ++ '\n' :: further) = some (body, rest ++ '\n' :: further) := by
  fun_induction body? cs generalizing body rest with
  | case1 => cases found
  | case2 cs =>
      cases found
      rfl
  | case3 => cases found
  | case4 => cases found
  | case5 c cs notFeed ih =>
      rcases Option.map_eq_some_iff.1 found with ⟨⟨inner, outer⟩, found, same⟩
      cases same
      simp only [List.cons_append, body?, if_neg notFeed, ih found, Option.map_some]
  | case6 c cs notQuote notFeed notEscape ih =>
      rcases Option.map_eq_some_iff.1 found with ⟨⟨inner, outer⟩, found, same⟩
      cases same
      rw [List.cons_append, body?, ih found]
      · rfl
      · exact notQuote
      · exact notFeed
      · intro d behind escape same
        cases cs with
        | nil => cases found
        | cons first cs =>
            cases same
            exact notEscape _ _ escape rfl

theorem BlockString.body?_append {escaped : Bool} {cs body rest : List Char}
    (found : body? escaped cs = some (body, rest)) (further : List Char) :
    body? escaped (cs ++ '\n' :: further) = some (body, rest ++ '\n' :: further) := by
  fun_induction body? escaped cs generalizing body rest with
  | case1 cs ih =>
      rcases Option.map_eq_some_iff.1 found with ⟨⟨inner, outer⟩, found, same⟩
      cases same
      change (body? false (cs ++ '\n' :: further)).map _ = _
      rw [ih found]
      rfl
  | case2 escaped cs notEscaped =>
      cases found
      exact if_neg notEscaped
  | case3 _ c cs notFence ih =>
      rcases Option.map_eq_some_iff.1 found with ⟨⟨inner, outer⟩, found, same⟩
      cases same
      rw [List.cons_append, body?, ih found]
      · rfl
      · intro behind quote same
        rcases cs with _ | ⟨first, _ | ⟨second, cs⟩⟩
        · cases same
        · cases same
        · cases same
          exact notFence _ quote rfl
  | case4 => cases found

theorem takeWhile_append_lineFeed {belongs : Char → Bool} (stops : belongs '\n' = false)
    (cs further : List Char) :
    (cs ++ '\n' :: further).takeWhile belongs = cs.takeWhile belongs ∧
      (cs ++ '\n' :: further).dropWhile belongs = cs.dropWhile belongs ++ '\n' :: further := by
  induction cs with
  | nil => simp [stops]
  | cons c cs ih =>
      cases first : belongs c with
      | false => simp [first]
      | true => simp [first, ih]

theorem Token.readString?_append {cs text rest : List Char} {token : Token}
    (read : readString? cs = some (token, text, rest)) (further : List Char) :
    readString? (cs ++ '\n' :: further) = some (token, text, rest ++ '\n' :: further) := by
  unfold readString? at read
  split at read
  · next cs =>
      obtain ⟨⟨body, behind⟩, found, same⟩ := Option.bind_eq_some_iff.1 read
      cases same
      change (BlockString.body? false (cs ++ '\n' :: further)).bind _ = _
      rw [BlockString.body?_append found]
      rfl
  · next notFence =>
      obtain ⟨⟨body, behind⟩, found, same⟩ := Option.bind_eq_some_iff.1 read
      obtain ⟨value, decoded, same⟩ := Option.bind_eq_some_iff.1 same
      cases same
      rw [readString?]
      · simp only [QuotedString.body?_append found, decoded, Option.bind_eq_bind,
          Option.bind_some]
        rfl
      · intro behind same
        rcases cs with _ | ⟨first, _ | ⟨second, cs⟩⟩
        · cases same
        · cases same
        · cases same
          exact notFence _ rfl

/-- A token is read in the same way if a line feed and anything else come behind the text. -/
theorem Token.read?_append {cs text rest : List Char} {token : Token}
    (read : read? cs = some (token, text, rest)) (further : List Char) :
    read? (cs ++ '\n' :: further) = some (token, text, rest ++ '\n' :: further) := by
  unfold read? at read
  split at read
  · cases read
  · cases read
    rfl
  · next c cs notSpread =>
      rw [List.cons_append, read?]
      · split at read
        · next symbol single =>
            cases read
            rfl
        · split at read
          · next isStart =>
              rcases @takeWhile_append_lineFeed isNamePart rfl cs further with ⟨taken, left⟩
              cases read
              simp only [if_pos isStart, taken, left]
          · next notStart =>
              split at read
              · next isNumber =>
                  rcases Option.map_eq_some_iff.1 read with ⟨_, value, same⟩
                  rcases @takeWhile_append_lineFeed (fun c => !Number.isEnd c) rfl cs further with
                    ⟨taken, left⟩
                  cases same
                  simp only [if_neg notStart, if_pos isNumber, taken, left, value, Option.map_some]
              · next notNumber =>
                  split at read
                  · next quote =>
                      simp only [if_neg notStart, if_neg notNumber, if_pos quote,
                        readString?_append read]
                  · cases read
      · intro behind dot same
        rcases cs with _ | ⟨first, _ | ⟨second, cs⟩⟩
        · cases same
        · cases same
        · cases same
          exact notSpread _ dot rfl

/-! ## The whole scan -/

/-- The line feed behind a text that is passed over ends it, be it a comment or not. -/
theorem skipIgnored_append (comment : Bool) (pos : Pos) (cs further : List Char) :
    skipIgnored comment pos (cs ++ '\n' :: further) =
      match skipIgnored comment pos cs with
      | (here, []) => skipIgnored false here.nextLine further
      | (here, c :: rest) => (here, c :: rest ++ '\n' :: further) := by
  fun_induction skipIgnored comment pos cs with
  | case1 comment pos =>
      cases comment with
      | false => rfl
      | true => rfl
  | _ => simp [skipIgnored, *]

/-- What is passed over does not depend on where the text begins. -/
theorem skipIgnored_anywhere {comment : Bool} {pos here : Pos} {cs rest : List Char}
    (skipped : skipIgnored comment pos cs = (here, rest)) (other : Pos) :
    ∃ otherHere, skipIgnored comment other cs = (otherHere, rest) := by
  induction cs generalizing comment pos other with
  | nil =>
      cases skipped
      exact ⟨other, rfl⟩
  | cons c cs ih =>
      rw [skipIgnored] at skipped ⊢
      split_ifs at skipped ⊢
      all_goals first
        | exact ih skipped _
        | exact ⟨other, by rw [(Prod.mk.inj skipped).2]⟩

theorem scan_of_ending {pos here : Pos} {cs : List Char}
    (skipped : skipIgnored false pos cs = (here, [])) : scan pos cs = ⟨[], here, true⟩ := by
  rw [scan.eq_def, skipped]

theorem scan_of_none {pos here : Pos} {c : Char} {cs rest : List Char}
    (skipped : skipIgnored false pos cs = (here, c :: rest))
    (none : Token.read? (c :: rest) = none) : scan pos cs = ⟨[], here, false⟩ := by
  rw [scan.eq_def, skipped]
  dsimp only
  split
  · rfl
  · next found =>
      rw [none] at found
      cases found

theorem scan_of_token {pos here : Pos} {token : Token} {cs rest text behind : List Char}
    (skipped : skipIgnored false pos cs = (here, rest))
    (read : Token.read? rest = some (token, text, behind)) :
    (scan pos cs).tokens = token :: (scan (here.after text) behind).tokens ∧
      (scan pos cs).complete = (scan (here.after text) behind).complete := by
  have ⟨found, complete⟩ := scan_of_read? here read
  rw [scan_of_skipIgnored (skipped.trans (skipIgnored_of_read? here read).symm), Scan.tokens, found,
    complete]
  exact ⟨rfl, rfl⟩

/-- The tokens of a text do not depend on where it begins. -/
theorem scan_anywhere (pos other : Pos) (cs : List Char) :
    (scan pos cs).tokens = (scan other cs).tokens ∧
      (scan pos cs).complete = (scan other cs).complete := by
  fun_induction scan pos cs generalizing other with
  | case1 pos cs here skipped =>
      rcases skipIgnored_anywhere skipped other with ⟨otherHere, otherSkipped⟩
      rw [scan_of_ending otherSkipped]
      exact ⟨rfl, rfl⟩
  | case2 pos cs here c rest skipped none =>
      rcases skipIgnored_anywhere skipped other with ⟨otherHere, otherSkipped⟩
      rw [scan_of_none otherSkipped none]
      exact ⟨rfl, rfl⟩
  | case3 pos cs here c rest skipped token text behind read tail ih =>
      rcases skipIgnored_anywhere skipped other with ⟨otherHere, otherSkipped⟩
      have ⟨tokens, complete⟩ := ih (otherHere.after text)
      have ⟨otherTokens, otherComplete⟩ := scan_of_token otherSkipped read
      rw [otherTokens, otherComplete, ← tokens, ← complete]
      exact ⟨rfl, rfl⟩

/-- A text that is complete has its tokens in front of those behind the line feed. -/
theorem scan_append {pos : Pos} {cs : List Char} (complete : (scan pos cs).complete = true)
    (other : Pos) (further : List Char) :
    (scan pos (cs ++ '\n' :: further)).tokens =
        (scan pos cs).tokens ++ (scan other further).tokens ∧
      (scan pos (cs ++ '\n' :: further)).complete = (scan other further).complete := by
  fun_induction scan pos cs with
  | case1 pos cs here skipped =>
      have passed := skipIgnored_append false pos cs further
      rw [skipped] at passed
      rw [scan_of_skipIgnored passed]
      exact scan_anywhere _ _ _
  | case2 => cases complete
  | case3 pos cs here c rest skipped token text behind read tail ih =>
      have passed := skipIgnored_append false pos cs further
      rw [skipped] at passed
      have ⟨tokens, sameComplete⟩ := scan_of_token passed (Token.read?_append read further)
      have ⟨tokensBehind, completeBehind⟩ := ih complete
      rw [tokens, sameComplete, tokensBehind, completeBehind]
      exact ⟨rfl, rfl⟩

theorem toList_intercalate_cons_cons (text next : String) (rest : List String) :
    ("\n".intercalate (text :: next :: rest)).toList =
      text.toList ++ '\n' :: ("\n".intercalate (next :: rest)).toList := by
  rw [String.intercalate_cons_cons, String.toList_append, String.toList_append, List.append_assoc]
  rfl

/-- Joined texts have the tokens of all texts, if each is complete. -/
theorem scan_intercalate {texts : List String}
    (complete : ∀ text ∈ texts, (scan .start text.toList).complete = true) :
    (scan .start ("\n".intercalate texts).toList).tokens =
        texts.flatMap (fun text => (scan .start text.toList).tokens) ∧
      (scan .start ("\n".intercalate texts).toList).complete = true := by
  induction texts with
  | nil => exact (Trailing.ignorable .nil).scan _
  | cons text rest ih =>
      have ⟨here, later⟩ := List.forall_mem_cons.1 complete
      cases rest with
      | nil =>
          rw [String.intercalate_singleton, List.flatMap_singleton]
          exact ⟨rfl, here⟩
      | cons next rest =>
          have ⟨tokens, completeBehind⟩ := ih later
          have ⟨joined, same⟩ := scan_append here .start ("\n".intercalate (next :: rest)).toList
          rw [toList_intercalate_cons_cons, joined, same, tokens, List.flatMap_cons]
          exact ⟨rfl, completeBehind⟩

/-! ## Texts that hold documents -/

/-- A text of spaces, tabs and line ends. -/
def IsSpacing (text : String) : Prop :=
  ∀ c ∈ text.toList, c = ' ' ∨ c = '\t' ∨ c = '\r' ∨ c = '\n'

/-- What a text adds to a document: the one that it stands for, or nothing if it is spacing. -/
inductive Holds (text : String) : Document → Prop
  | spacing (spacing : IsSpacing text) : Holds text ⟨[]⟩
  | parsed {document} (parsed : Document.parse text = .ok document) : Holds text document

/-- The definitions of all documents, in their order. -/
def Document.concat (documents : List Document) : Document :=
  ⟨documents.flatMap Document.definitions⟩

theorem IsSpacing.trailing {text : String} (spacing : IsSpacing text) : Trailing text.toList := by
  rw [IsSpacing] at spacing
  generalize text.toList = cs at spacing
  apply Trailing.ignorable
  induction cs with
  | nil => exact .nil
  | cons c cs ih =>
      have ⟨here, later⟩ := List.forall_mem_cons.1 spacing
      refine .skipped ?_ (ih later)
      rcases here with rfl | rfl | rfl | rfl <;> rfl

theorem IsSpacing.intercalate {texts : List String} (spacing : ∀ text ∈ texts, IsSpacing text) :
    IsSpacing ("\n".intercalate texts) := by
  induction texts with
  | nil => exact fun c absent => nomatch absent
  | cons text rest ih =>
      have ⟨here, later⟩ := List.forall_mem_cons.1 spacing
      cases rest with
      | nil =>
          rw [String.intercalate_singleton]
          exact here
      | cons next rest =>
          rw [IsSpacing, toList_intercalate_cons_cons]
          intro c present
          rcases List.mem_append.1 present with inside | behind
          · exact here c inside
          · rcases List.mem_cons.1 behind with rfl | behind
            · exact .inr (.inr (.inr rfl))
            · exact ih later c behind

namespace Holds

variable {text : String} {document : Document}

/-- The tokens of the text are read as the definitions of the document. -/
theorem repeats (holds : Holds text document) :
    (scan .start text.toList).complete = true ∧
      Reader.Repeats (fun _ => true) Grammar.definition
        (lexemes (scan .start text.toList).tokens) document.erase.definitions [] := by
  cases holds with
  | spacing spacing =>
      have ⟨tokens, complete⟩ := spacing.trailing.scan .start
      rw [tokens]
      exact ⟨complete, .ending⟩
  | parsed parsed =>
      rcases Document.parse_eq_ok parsed with ⟨complete, rest, read⟩
      have mirrored := Grammar.mirrors_document (scan .start text.toList).lexemes
      rw [map_erase_eq_lexemes, read] at mirrored
      exact ⟨complete, (Grammar.document_eq_ok.1 mirrored).2.2⟩

theorem isSpacing (holds : Holds text document) (none : document.definitions = []) :
    IsSpacing text := by
  cases holds with
  | spacing spacing => exact spacing
  | parsed parsed =>
      rcases Document.parse_eq_ok parsed with ⟨_, _, read⟩
      exact absurd none (Grammar.document_eq_ok.1 read).1

variable {texts : List String} {documents : List Document}

theorem repeats_flatMap (each : List.Forall₂ Holds texts documents) :
    Reader.Repeats (fun _ => true) Grammar.definition
      (lexemes (texts.flatMap fun text => (scan .start text.toList).tokens))
      (Document.concat documents).erase.definitions [] := by
  induction each with
  | nil => exact .ending
  | cons holds _ ih =>
      rw [List.flatMap_cons, lexemes, List.map_append, Document.concat, List.flatMap_cons,
        Document.erase, List.map_append]
      exact holds.repeats.2.append_of_ending Grammar.foresees_definition rfl ih

theorem complete_of_mem (each : List.Forall₂ Holds texts documents) :
    ∀ text ∈ texts, (scan .start text.toList).complete = true := by
  induction each with
  | nil => exact fun text absent => nomatch absent
  | cons holds _ ih => exact List.forall_mem_cons.2 ⟨holds.repeats.1, ih⟩

theorem isSpacing_of_mem (each : List.Forall₂ Holds texts documents)
    (none : (Document.concat documents).definitions = []) : ∀ text ∈ texts, IsSpacing text := by
  induction each with
  | nil => exact fun text absent => nomatch absent
  | cons holds _ ih =>
      have ⟨here, later⟩ := List.append_eq_nil_iff.1 none
      exact List.forall_mem_cons.2 ⟨holds.isSpacing here, ih later⟩

/-- Texts joined by line feeds hold all the definitions that they hold. -/
theorem intercalate (each : List.Forall₂ Holds texts documents) :
    ∃ joined, Holds ("\n".intercalate texts) joined ∧
      joined.erase = (Document.concat documents).erase := by
  have ⟨tokens, complete⟩ := scan_intercalate (complete_of_mem each)
  by_cases none : (Document.concat documents).definitions = []
  · refine ⟨⟨[]⟩, .spacing (IsSpacing.intercalate (isSpacing_of_mem each none)), ?_⟩
    rw [Document.erase, Document.erase, none]
  · have repeats := repeats_flatMap each
    rw [← tokens] at repeats
    have nonempty : (Document.concat documents).erase.definitions ≠ [] := by
      rw [Document.erase]
      exact fun empty => none (List.map_eq_nil_iff.1 empty)
    rcases Document.parse_of_tokens complete (Grammar.document_eq_ok.2 ⟨nonempty, rfl, repeats⟩)
      with ⟨joined, parsed, same⟩
    exact ⟨joined, .parsed parsed, same⟩

end Holds

/-! ## Visible texts -/

/-- No token begins with white space. -/
theorem isBlank_of_read? {c : Char} {cs text rest : List Char} {token : Token}
    (read : Token.read? (c :: cs) = some (token, text, rest)) : Text.isBlank c = false := by
  have outside (visible : 0x21 ≤ c.toNat ∧ c.toNat ≤ 0x7E) : Text.isBlank c = false := by
    simp [Text.isBlank, Text.blankRanges]
    omega
  unfold Token.read? at read
  split at read
  · cases read
  · next same =>
      cases same
      rfl
  · next same =>
      cases same
      split at read
      · next symbol single =>
          unfold Punctuator.ofChar? at single
          split at single
          all_goals first | rfl | cases single
      · split at read
        · next isStart =>
            rw [isNameStart, Bool.or_eq_true, decide_eq_true_eq] at isStart
            rcases isStart with alpha | rfl
            · simp only [Char.isAlpha, Char.isUpper, Char.isLower, ge_iff_le,
                UInt32.le_iff_toNat_le, Bool.or_eq_true, Bool.and_eq_true, decide_eq_true_eq]
                at alpha
              have code : c.val.toNat = c.toNat := rfl
              exact outside (by simp at alpha; omega)
            · rfl
        · split at read
          · next isNumber =>
              rw [Bool.or_eq_true, decide_eq_true_eq] at isNumber
              rcases isNumber with rfl | digit
              · rfl
              · have := Decimal.toNat_of_isDigit digit
                exact outside (by omega)
          · split at read
            · next quote =>
                rw [quote]
                rfl
            · cases read

theorem skipIgnored_suffix (comment : Bool) (pos : Pos) (cs : List Char) :
    (skipIgnored comment pos cs).2 <:+ cs := by
  induction cs generalizing comment pos with
  | nil => exact List.suffix_refl _
  | cons c cs ih =>
      rw [skipIgnored]
      split_ifs
      all_goals first
        | exact (ih _ _).trans (List.suffix_cons c cs)
        | exact List.suffix_refl _

/-- A text that is a document is not blank. -/
theorem Document.allBlank_of_parse {text : String} {document : Document}
    (parsed : Document.parse text = .ok document) : Text.allBlank text.toList = false := by
  rcases Document.parse_eq_ok parsed with ⟨complete, _, read⟩
  rw [← Bool.not_eq_true, Text.allBlank, List.all_eq_true]
  intro blank
  cases skipped : skipIgnored false .start text.toList with
  | mk here rest =>
      cases rest with
      | nil =>
          rw [scan_of_ending skipped] at read
          cases read
      | cons c rest =>
          cases token : Token.read? (c :: rest) with
          | none =>
              rw [scan_of_none skipped token] at complete
              cases complete
          | some reading =>
              have suffix := skipIgnored_suffix false .start text.toList
              rw [skipped] at suffix
              have visible := isBlank_of_read? token
              rw [blank c (suffix.subset List.mem_cons_self)] at visible
              cases visible

end PersistedDocuments.GraphQL
