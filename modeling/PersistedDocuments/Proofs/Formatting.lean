import Mathlib
import PersistedDocuments.Client
import PersistedDocuments.Proofs.GraphQL.Spelling
import PersistedDocuments.Proofs.Placeless

/-!
# Formatting does not matter

Two texts have the same tokens if they differ in what stands between tokens only: spaces, tabs, line
ends, commas, byte order marks and comments. They are documents that are equal up to places, or both
are no documents, so a client finds the same query for both or fails for the same reason.
-/

namespace PersistedDocuments

open GraphQL

namespace GraphQL

/-! ## What stands between tokens -/

/-- A character that the scan passes over wherever a token may begin. -/
def isSkipped (c : Char) : Bool :=
  c = ' ' || c = ',' || c = '\t' || c = '\n' || c = '\r' || c = '\uFEFF'

/-- A character that ends a comment. -/
def endsComment (c : Char) : Bool := c = '\n' || c = '\r'

/-- A text that may stand in front of any token: skipped characters, and comments with their ends.
-/
inductive Ignorable : List Char → Prop
  | nil : Ignorable []
  | skipped {c cs} (isSkipped : isSkipped c = true) (rest : Ignorable cs) : Ignorable (c :: cs)
  | comment {body ending cs} (inside : ∀ c ∈ body, endsComment c = false)
      (ends : endsComment ending = true) (rest : Ignorable cs) :
      Ignorable ('#' :: (body ++ ending :: cs))

/-- A text that may stand behind the last token; a comment in it need not end. -/
inductive Trailing : List Char → Prop
  | ignorable {cs} (ignorable : Ignorable cs) : Trailing cs
  | comment {cs body} (ignorable : Ignorable cs) (inside : ∀ c ∈ body, endsComment c = false) :
      Trailing (cs ++ '#' :: body)

/-- The second text consists of the tokens of the first one, each in the same spelling, with other
texts between them. -/
inductive Reformatted : List Char → List Char → Prop
  | ending {cs ds} (left : Trailing cs) (right : Trailing ds) : Reformatted cs ds
  | token {token text before otherBefore cs ds} (left : Ignorable before)
      (right : Ignorable otherBefore)
      (read : Token.read? (text ++ cs) = some (token, text, cs))
      (otherRead : Token.read? (text ++ ds) = some (token, text, ds))
      (rest : Reformatted cs ds) :
      Reformatted (before ++ (text ++ cs)) (otherBefore ++ (text ++ ds))

/-- The tokens that a scan has found. -/
def Scan.tokens (scanned : Scan) : List Token := scanned.lexemes.map Lexeme.token

/-- The two texts have the same tokens, and both consist of these or both go on with something that
is no token. -/
def SameTokens (text other : String) : Prop :=
  (scan .start text.toList).tokens = (scan .start other.toList).tokens ∧
    (scan .start text.toList).complete = (scan .start other.toList).complete

/-- The inside of a comment is passed over. -/
theorem skipIgnored_comment {body : List Char} (inside : ∀ c ∈ body, endsComment c = false)
    (pos : Pos) (cs : List Char) :
    skipIgnored true pos (body ++ cs) = skipIgnored true pos cs := by
  induction body with
  | nil => rfl
  | cons c body ih =>
      rw [List.forall_mem_cons, endsComment] at inside
      rw [List.cons_append, skipIgnored, if_pos rfl, inside.1, if_neg Bool.false_ne_true]
      exact ih inside.2

theorem Ignorable.skipIgnored {gap : List Char} (ignorable : Ignorable gap) (pos : Pos)
    (cs : List Char) :
    ∃ here, GraphQL.skipIgnored false pos (gap ++ cs) = GraphQL.skipIgnored false here cs := by
  induction ignorable generalizing pos with
  | nil => exact ⟨pos, rfl⟩
  | @skipped c rest isSkipped _ ih =>
      simp only [GraphQL.isSkipped, Bool.or_eq_true, decide_eq_true_eq] at isSkipped
      rcases isSkipped with ((((rfl | rfl) | rfl) | rfl) | rfl) | rfl
      · exact ih (pos.right 1)
      · exact ih (pos.right 1)
      · exact ih (pos.right 8)
      · exact ih pos.nextLine
      · exact ih pos
      · exact ih pos
  | @comment body ending rest inside ends _ ih =>
      rcases ih pos.nextLine with ⟨here, skipped⟩
      refine ⟨here, ?_⟩
      rw [endsComment] at ends
      change GraphQL.skipIgnored true pos ((body ++ ending :: rest) ++ cs) = _
      rw [List.append_assoc, skipIgnored_comment inside, List.cons_append, GraphQL.skipIgnored,
        if_pos rfl, if_pos ends, skipped]

theorem Trailing.skipIgnored {gap : List Char} (trailing : Trailing gap) (pos : Pos) :
    ∃ here, GraphQL.skipIgnored false pos gap = (here, []) := by
  cases trailing with
  | ignorable ignorable =>
      rcases ignorable.skipIgnored pos [] with ⟨here, skipped⟩
      rw [List.append_nil] at skipped
      exact ⟨here, skipped⟩
  | @comment before body ignorable inside =>
      rcases ignorable.skipIgnored pos ('#' :: body) with ⟨here, skipped⟩
      refine ⟨here, skipped.trans ?_⟩
      have passed := skipIgnored_comment inside here []
      rw [List.append_nil] at passed
      exact passed

/-- Behind the last token the scan finds nothing more. -/
theorem Trailing.scan {gap : List Char} (trailing : Trailing gap) (pos : Pos) :
    (GraphQL.scan pos gap).tokens = [] ∧ (GraphQL.scan pos gap).complete = true := by
  rcases trailing.skipIgnored pos with ⟨here, skipped⟩
  rw [GraphQL.scan.eq_def, skipped]
  exact ⟨rfl, rfl⟩

/-- In front of a token an ignorable text changes nothing. -/
theorem Ignorable.scan {gap text cs : List Char} {token : Token} (ignorable : Ignorable gap)
    (pos : Pos) (read : Token.read? (text ++ cs) = some (token, text, cs)) :
    ∃ here,
      (GraphQL.scan pos (gap ++ (text ++ cs))).tokens = token :: (GraphQL.scan here cs).tokens ∧
      (GraphQL.scan pos (gap ++ (text ++ cs))).complete = (GraphQL.scan here cs).complete := by
  rcases ignorable.skipIgnored pos (text ++ cs) with ⟨here, skipped⟩
  have ⟨found, complete⟩ := scan_of_read? here read
  refine ⟨here.after text, ?_⟩
  rw [scan_of_skipIgnored skipped, Scan.tokens, found, complete]
  exact ⟨rfl, rfl⟩

/-- A text in another format has the same tokens, wherever the two begin. -/
theorem Reformatted.scan {cs ds : List Char} (reformatted : Reformatted cs ds) (pos other : Pos) :
    (GraphQL.scan pos cs).tokens = (GraphQL.scan other ds).tokens ∧
      (GraphQL.scan pos cs).complete = (GraphQL.scan other ds).complete := by
  induction reformatted generalizing pos other with
  | ending left right =>
      have ⟨tokens, complete⟩ := left.scan pos
      have ⟨otherTokens, otherComplete⟩ := right.scan other
      exact ⟨tokens.trans otherTokens.symm, complete.trans otherComplete.symm⟩
  | token left right read otherRead _ ih =>
      rcases left.scan pos read with ⟨behind, tokens, complete⟩
      rcases right.scan other otherRead with ⟨otherBehind, otherTokens, otherComplete⟩
      have ⟨sameRest, sameComplete⟩ := ih behind otherBehind
      rw [tokens, complete, otherTokens, otherComplete, sameRest]
      exact ⟨rfl, sameComplete⟩

/-- The obstacle without the place that it may tell. -/
def Obstacle.erase : Obstacle → Obstacle
  | .token _ => .token .nowhere
  | .tornString => .tornString

/-- Texts with the same tokens are documents that are equal up to places, or both are none, for the
same reason. -/
theorem SameTokens.parse {text other : String} (same : SameTokens text other) :
    (∃ document otherDocument, Document.parse text = .ok document ∧
      Document.parse other = .ok otherDocument ∧ document.erase = otherDocument.erase) ∨
    ∃ obstacle otherObstacle, Document.parse text = .error obstacle ∧
      Document.parse other = .error otherObstacle ∧ obstacle.erase = otherObstacle.erase := by
  have ⟨sameTokens, sameComplete⟩ := same
  have mirrored := Grammar.mirrors_document (scan .start text.toList).lexemes
  have otherMirrored := Grammar.mirrors_document (scan .start other.toList).lexemes
  rw [map_erase_eq_lexemes] at mirrored otherMirrored
  have outcomes := mirrored.symm.trans ((congrArg (fun tokens => Grammar.document (lexemes tokens))
    sameTokens).trans otherMirrored)
  rw [Document.parse, Document.parse, Scan.document, Scan.document, ← sameComplete]
  cases run : Grammar.document (scan .start text.toList).lexemes with
  | error mismatch =>
      rw [run] at outcomes
      cases otherRun : Grammar.document (scan .start other.toList).lexemes with
      | error otherMismatch =>
          rw [otherRun] at outcomes
          have sameKind : mismatch.erase = otherMismatch.erase := Except.error.inj outcomes
          right
          cases mismatch <;> cases otherMismatch <;>
            first | exact ⟨_, _, rfl, rfl, rfl⟩ | cases sameKind
      | ok result =>
          rw [otherRun] at outcomes
          cases outcomes
  | ok result =>
      rw [run] at outcomes
      cases otherRun : Grammar.document (scan .start other.toList).lexemes with
      | error otherMismatch =>
          rw [otherRun] at outcomes
          cases outcomes
      | ok otherResult =>
          rw [otherRun] at outcomes
          have sameTree := (Prod.mk.inj (Except.ok.inj outcomes)).1
          cases (scan .start text.toList).complete with
          | true => exact .inl ⟨result.1, otherResult.1, rfl, rfl, sameTree⟩
          | false => exact .inr ⟨_, _, rfl, rfl, rfl⟩

end GraphQL

/-- The failure without the place that it may tell. -/
def Failure.placeless : Failure → Failure
  | .unreadable _ => .unreadable .nowhere
  | failure => failure

theorem Failure.placeless_ofObstacle (obstacle : Obstacle) :
    (ofObstacle obstacle).placeless = ofObstacle obstacle.erase := by cases obstacle <;> rfl

/-- A client finds the same identifier for two texts with the same tokens, or it fails for both for
the same reason, with nothing but the place of a token to tell the failures apart. Texts that differ
in nothing but what stands between their tokens are such texts. -/
theorem Client.queryId_of_sameTokens (manifest : Manifest) (n : Nat) (enabled : Bool) :
    let client : Client := ⟨manifest, List.replicate n .addTypename, enabled⟩
    (∀ text other, Reformatted text.toList other.toList → SameTokens text other) ∧
    ∀ text other, SameTokens text other →
      (∃ id, client.queryId text = .ok id ∧ client.queryId other = .ok id) ∨
      ∃ failure otherFailure, client.queryId text = .error failure ∧
        client.queryId other = .error otherFailure ∧
        failure.placeless = otherFailure.placeless := by
  intro client
  refine ⟨fun text other reformatted => reformatted.scan _ _, fun text other same => ?_⟩
  rcases same.parse with ⟨document, otherDocument, parsed, otherParsed, sameTree⟩ |
    ⟨obstacle, otherObstacle, failed, otherFailed, sameKind⟩
  · have sameKey := Pipeline.requestKey_of_erase_eq n sameTree
    have sameAnswer : client.queryId text = client.queryId other := by
      rw [queryId, queryId, readDocument, readDocument, parsed, otherParsed]
      simp only [Except.mapError, bind, Except.bind]
      rw [sameKey]
    rw [sameAnswer]
    cases client.queryId other with
    | ok id => exact .inl ⟨id, rfl, rfl⟩
    | error failure => exact .inr ⟨failure, failure, rfl, rfl, rfl⟩
  · refine .inr ⟨.ofObstacle obstacle, .ofObstacle otherObstacle, ?_, ?_, ?_⟩
    · rw [queryId, readDocument, failed]
      rfl
    · rw [queryId, readDocument, otherFailed]
      rfl
    · rw [Failure.placeless_ofObstacle, Failure.placeless_ofObstacle, sameKind]

/-- A query without any blanks, and the same one behind a byte order mark, on two lines, with a
comma and two comments, of which the last does not end. -/
theorem Client.queryId_of_sameTokens_of_comments :
    let manifest := (Builder.run [.addTypename] [.source "\x7ba\x7bb\x7d\x7d"]).manifest
    let client : Client := ⟨manifest, [.addTypename], true⟩
    let other := "\uFEFF\x7b a, \x7b # b \x7d\r\n\tb \x7d \x7d#"
    SameTokens "\x7ba\x7bb\x7d\x7d" other ∧
      client.queryId "\x7ba\x7bb\x7d\x7d" = .ok (.number 1) ∧
      client.queryId other = .ok (.number 1) := by
  intro manifest client other
  have same : SameTokens "\x7ba\x7bb\x7d\x7d" other := ⟨by cbv, by cbv⟩
  have found : Client.queryId
      ⟨(Builder.run [.addTypename] [.source "\x7ba\x7bb\x7d\x7d"]).manifest, [.addTypename], true⟩
      "\x7ba\x7bb\x7d\x7d" = .ok (.number 1) := by cbv
  have both := (Client.queryId_of_sameTokens manifest 1 true).2 _ other same
  rw [List.replicate_one, found] at both
  refine ⟨same, found, ?_⟩
  rcases both with ⟨id, identified, otherIdentified⟩ | ⟨_, _, failed, _⟩
  · rw [otherIdentified, ← identified]
  · cases failed

end PersistedDocuments
