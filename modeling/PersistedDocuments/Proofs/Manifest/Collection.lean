import PersistedDocuments.Proofs.Manifest.Builder
import PersistedDocuments.Typename

/-!
# What a builder has collected

After any sequence of calls a builder holds the first of all reductions with each key, among those
that the successful calls gave, numbered from one on in the order in which they were given. A call
fails exactly if its text is no document, if the pipeline refuses the document, or if an operation
reaches a fragment without a definition; then it leaves the builder as it was.
-/

namespace PersistedDocuments

open GraphQL

/-- Of the documents with one key the first. -/
def GraphQL.Document.firsts (documents : List Document) : List Document :=
  documents.eraseDupsBy fun document earlier => document.canonicalKey == earlier.canonicalKey

theorem GraphQL.Document.firsts_cons (document : Document) (rest : List Document) :
    firsts (document :: rest) =
      document :: firsts (rest.filter fun other => other.canonicalKey ≠ document.canonicalKey) := by
  rw [firsts, List.eraseDupsBy_cons, firsts]
  congr 3
  funext other
  simp

/-- Documents with different keys are all firsts. -/
theorem GraphQL.Document.firsts_of_nodup {documents : List Document}
    (distinct : (documents.map Document.canonicalKey).Nodup) : firsts documents = documents := by
  induction documents with
  | nil => rfl
  | cons document rest ih =>
      rcases List.nodup_cons.1 distinct with ⟨fresh, later⟩
      rw [firsts_cons, List.filter_eq_self.2, ih later]
      intro other present
      exact decide_eq_true fun same => fresh (same ▸ List.mem_map_of_mem present)

/-- Entries for the documents, numbered in their order. -/
def Entry.numbered (first : Nat) (documents : List Document) : List Entry :=
  (documents.zipIdx first).map fun (document, n) => ⟨document.canonicalKey, .number n, document⟩

/-! ## Why a call fails -/

/-- The pipeline refuses the document, or it makes a document of it in which an operation reaches a
name without a definition. -/
def Pipeline.Rejects (pipeline : Pipeline) (document : Document) : Prop :=
  (∃ failure, pipeline.run document = .error failure) ∨
    ∃ transformed, pipeline.run document = .ok transformed ∧
      ∃ operation ∈ transformed.operations, ∃ name,
        transformed.Reaches operation.selectionSet.spreads name ∧
          transformed.fragment? name = none

theorem Pipeline.rejects_iff {pipeline : Pipeline} {document : Document} :
    (∃ failure, pipeline.reductions document = .error failure) ↔ pipeline.Rejects document := by
  simp only [Pipeline.reductions, bind_fails_iff, mapM_fails_iff, Document.reduce_fails_iff,
    Pipeline.Rejects]

namespace Builder

variable {builder : Builder} {document : Document} {documents : List Document}

/-- A call with a text of white space. -/
def Call.IsBlank : Call → Prop
  | .document _ => False
  | .source text => Text.allBlank text.toList = true

/-- A text that is not blank and is no document, or a document that is rejected. -/
def Call.Fails (pipeline : Pipeline) : Call → Prop
  | .document given => pipeline.Rejects given
  | .source text => Text.allBlank text.toList = false ∧
      ((∃ failure, readDocument text = .error failure) ∨
        ∃ given, readDocument text = .ok given ∧ pipeline.Rejects given)

/-- The reductions that a call gives to a builder with the pipeline. -/
def Call.reductions (pipeline : Pipeline) : Call → Except Failure (List Document)
  | .document given => pipeline.reductions given
  | .source text =>
    if Text.allBlank text.toList then .ok [] else readDocument text >>= pipeline.reductions

/-- The reductions that a call gives, none if it fails. -/
def Call.collected (pipeline : Pipeline) (call : Call) : List Document :=
  (call.reductions pipeline).toOption.getD []

theorem Call.reductions_of_parse {pipeline : Pipeline} {text : String} {given : Document}
    (visible : Text.allBlank text.toList = false) (parsed : Document.parse text = .ok given) :
    (Call.source text).reductions pipeline = pipeline.reductions given := by
  rw [reductions, if_neg (by simp [visible]), readDocument_eq_ok.2 parsed]
  rfl

theorem Call.fails_iff {pipeline : Pipeline} {call : Call} :
    (∃ failure, call.reductions pipeline = .error failure) ↔ call.Fails pipeline := by
  cases call with
  | document given => exact Pipeline.rejects_iff
  | source text =>
      cases blank : Text.allBlank text.toList with
      | true => simp [Call.reductions, Call.Fails, blank]
      | false => simp [Call.reductions, Call.Fails, blank, bind_fails_iff, Pipeline.rejects_iff]

/-- What a call gives is left of the document that it hands over. -/
theorem Call.gives_of_mem_collected {pipeline : Pipeline} {call : Call}
    (given : document ∈ call.collected pipeline) :
    ∃ source, call.Gives source ∧
      ∃ reductions, pipeline.reductions source = .ok reductions ∧ document ∈ reductions := by
  cases result : call.reductions pipeline with
  | error failure =>
      rw [collected, result] at given
      cases given
  | ok reductions =>
      rw [collected, result] at given
      cases call with
      | document source => exact ⟨source, rfl, reductions, result, given⟩
      | source text =>
          rw [Call.reductions] at result
          split at result
          · cases result
            cases given
          · rcases bind_eq_ok.1 result with ⟨source, read, reduced⟩
            exact ⟨source, read, reductions, reduced, given⟩

/-! ## Calls in place -/

/-- The result of a call. -/
def answer (builder : Builder) : Call → Except Failure Builder
  | .document given => builder.addDocument given
  | .source text => builder.addSource text

theorem answer_eq (builder : Builder) (call : Call) :
    builder.answer call =
      (call.reductions builder.pipeline).map fun reductions => reductions.foldl addReduced builder
    := by
  cases call with
  | document given => rw [answer, addDocument, Call.reductions]; rfl
  | source text =>
      rw [answer, addSource, Call.reductions]
      split
      · rfl
      · cases readDocument text with
        | error failure => rfl
        | ok given => rfl

theorem call_eq (builder : Builder) (call : Call) :
    builder.call call = (call.collected builder.pipeline).foldl addReduced builder := by
  have result : builder.call call = (builder.answer call).toOption.getD builder := by
    cases call with
    | document given => rw [Builder.call, answer]; cases builder.addDocument given <;> rfl
    | source text => rw [Builder.call, answer]; cases builder.addSource text <;> rfl
  rw [result, answer_eq, Call.collected]
  cases call.reductions builder.pipeline <;> rfl

/-- Changes of a builder in place: every step takes effect at once, and a failure ends the
computation where it stands, without taking back what has been done. -/
abbrev InPlace := ExceptT Failure (StateM Builder)

namespace InPlace

def addAll (reductions : List Document) : InPlace Unit :=
  reductions.forM fun reduced => modify fun builder => builder.addReduced reduced

def addDocument (document : Document) : InPlace Unit := do
  let builder ← get
  addAll (← MonadExcept.ofExcept (builder.pipeline.reductions document))

def addSource (text : String) : InPlace Unit :=
  if Text.allBlank text.toList then return
  else do addDocument (← MonadExcept.ofExcept (readDocument text))

end InPlace

/-- A call in place, with its outcome and the builder that it leaves. -/
def perform (builder : Builder) (call : Call) : Except Failure Unit × Builder :=
  match call with
  | .document given => (InPlace.addDocument given).run.run builder
  | .source text => (InPlace.addSource text).run.run builder

theorem run_addAll (reductions : List Document) (builder : Builder) :
    (InPlace.addAll reductions).run.run builder =
      (.ok (), reductions.foldl addReduced builder) := by
  induction reductions generalizing builder with
  | nil => rfl
  | cons reduced rest ih => exact ih (builder.addReduced reduced)

theorem run_addDocument (document : Document) (builder : Builder) :
    (InPlace.addDocument document).run.run builder =
      match builder.addDocument document with
      | .ok after => (.ok (), after)
      | .error failure => (.error failure, builder) := by
  have step : (InPlace.addDocument document).run.run builder =
      (MonadExcept.ofExcept (builder.pipeline.reductions document) >>=
        InPlace.addAll).run.run builder := rfl
  rw [step, addDocument]
  cases builder.pipeline.reductions document with
  | error failure => rfl
  | ok reductions => exact run_addAll reductions builder

/-- In place a call changes the builder to the one that it answers, and nothing if it fails. -/
theorem perform_eq (builder : Builder) (call : Call) :
    builder.perform call =
      match builder.answer call with
      | .ok after => (.ok (), after)
      | .error failure => (.error failure, builder) := by
  cases call with
  | document given => exact run_addDocument given builder
  | source text =>
      rw [perform, answer, InPlace.addSource, addSource]
      split
      · rfl
      · cases readDocument text with
        | error failure => rfl
        | ok given => exact run_addDocument given builder

theorem perform_of_fails {call : Call} (fails : call.Fails builder.pipeline) :
    ∃ failure, builder.answer call = .error failure ∧
      builder.perform call = (.error failure, builder) := by
  rcases Call.fails_iff.2 fails with ⟨failure, refused⟩
  have answered : builder.answer call = .error failure := by rw [answer_eq, refused]; rfl
  exact ⟨failure, answered, by rw [perform_eq, answered]⟩

theorem perform_of_not_fails {call : Call} (succeeds : ¬call.Fails builder.pipeline) :
    builder.answer call = .ok (builder.call call) ∧
      builder.perform call = (.ok (), builder.call call) := by
  have answered : builder.answer call = .ok (builder.call call) := by
    rw [call_eq, answer_eq, Call.collected]
    cases given : call.reductions builder.pipeline with
    | error failure => exact absurd (Call.fails_iff.1 ⟨failure, given⟩) succeeds
    | ok reductions => rfl
  exact ⟨answered, by rw [perform_eq, answered]⟩

theorem perform_of_isBlank {call : Call} (blank : call.IsBlank) :
    builder.perform call = (.ok (), builder) := by
  cases call with
  | document given => cases blank
  | source text =>
      have same : Text.allBlank text.toList = true := blank
      rw [perform, InPlace.addSource, if_pos same]
      rfl

/-! ## Runs -/

/-- Documents whose keys are known are not added. -/
theorem foldl_addReduced_of_known
    (known : ∀ document ∈ documents, document.canonicalKey ∈ builder.manifest.keys) :
    documents.foldl addReduced builder = builder := by
  induction documents with
  | nil => rfl
  | cons document rest ih =>
      rw [List.foldl_cons, addReduced_of_mem (known document List.mem_cons_self)]
      exact ih fun other later => known other (List.mem_cons_of_mem _ later)

theorem entries_addReduced (fresh : document.canonicalKey ∉ builder.manifest.keys) :
    (builder.addReduced document).manifest.entries =
      builder.manifest.entries ++ [⟨document.canonicalKey, .number (builder.last + 1), document⟩]
    := by
  rw [addReduced_of_not_mem fresh, Manifest.push]

theorem last_addReduced (fresh : document.canonicalKey ∉ builder.manifest.keys) :
    (builder.addReduced document).last = builder.last + 1 := by
  rw [addReduced_of_not_mem fresh]

/-- Of the documents whose keys are new to a builder, the first with each key. -/
def news (builder : Builder) (documents : List Document) : List Document :=
  Document.firsts (documents.filter fun document =>
    document.canonicalKey ∉ builder.manifest.keys)

theorem news_of_mem (known : document.canonicalKey ∈ builder.manifest.keys)
    (rest : List Document) : builder.news (document :: rest) = builder.news rest := by
  rw [news, List.filter_cons_of_neg (by simpa using known), news]

theorem news_of_not_mem (fresh : document.canonicalKey ∉ builder.manifest.keys)
    (rest : List Document) :
    builder.news (document :: rest) = document :: (builder.addReduced document).news rest := by
  have stillNew : (rest.filter fun other =>
      other.canonicalKey ∉ (builder.addReduced document).manifest.keys) =
      (rest.filter fun other => other.canonicalKey ∉ builder.manifest.keys).filter
        fun other => other.canonicalKey ≠ document.canonicalKey := by
    rw [List.filter_filter, Manifest.keys, entries_addReduced fresh]
    congr 1
    funext other
    simp [Manifest.keys, not_or, and_comm]
  rw [news, List.filter_cons_of_pos (by simpa using fresh), Document.firsts_cons, news, stillNew]

theorem news_new (pipeline : Pipeline) (documents : List Document) :
    (new pipeline).news documents = Document.firsts documents := by
  rw [news, List.filter_eq_self.2]
  intro document _
  simp [new, Manifest.keys, Manifest.empty]

/-- A builder is continued by entries for the first documents whose keys are new, numbered behind
the last number. -/
theorem entries_foldl (builder : Builder) (documents : List Document) :
    (documents.foldl addReduced builder).manifest.entries =
        builder.manifest.entries ++ Entry.numbered (builder.last + 1) (builder.news documents) ∧
      (documents.foldl addReduced builder).last =
        builder.last + (builder.news documents).length := by
  induction documents generalizing builder with
  | nil => exact ⟨(List.append_nil _).symm, rfl⟩
  | cons document rest ih =>
      have ⟨entries, last⟩ := ih (builder.addReduced document)
      rw [List.foldl_cons, entries, last]
      by_cases known : document.canonicalKey ∈ builder.manifest.keys
      · rw [news_of_mem known, addReduced_of_mem known]
        exact ⟨rfl, rfl⟩
      · rw [news_of_not_mem known, entries_addReduced known, last_addReduced known]
        exact ⟨List.append_assoc _ _ _, Nat.add_right_comm _ _ _⟩

theorem entries_foldl_new (pipeline : Pipeline) (documents : List Document) :
    (documents.foldl addReduced (new pipeline)).manifest.entries =
      Entry.numbered 1 (Document.firsts documents) := by
  rw [(entries_foldl _ _).1, news_new]
  rfl

theorem entries_singleton (pipeline : Pipeline) (document : Document) :
    ([document].foldl addReduced (new pipeline)).manifest.entries =
      [⟨document.canonicalKey, .number 1, document⟩] := by
  rw [entries_foldl_new, Document.firsts_cons]
  rfl

theorem run_append (pipeline : Pipeline) (calls more : List Call) :
    run pipeline (calls ++ more) = more.foldl call (run pipeline calls) :=
  List.foldl_append

/-- A run adds what its calls give, one after the other. -/
theorem foldl_call (builder : Builder) (calls : List Call) :
    calls.foldl call builder =
      (calls.flatMap (Call.collected builder.pipeline)).foldl addReduced builder := by
  induction calls generalizing builder with
  | nil => rfl
  | cons first rest ih =>
      have samePipeline : (builder.call first).pipeline = builder.pipeline := by
        rw [call_eq, pipeline_foldl]
      rw [List.foldl_cons, ih, samePipeline, List.flatMap_cons, List.foldl_append, ← call_eq]

theorem pipeline_run (pipeline : Pipeline) (calls : List Call) :
    (run pipeline calls).pipeline = pipeline := by
  rw [run, foldl_call, pipeline_foldl]
  rfl

/-- A single call with a single reduction. -/
theorem entries_run_singleton {pipeline : Pipeline} {call : Call}
    (given : call.reductions pipeline = .ok [document]) :
    (run pipeline [call]).manifest.entries =
      [⟨document.canonicalKey, .number 1, document⟩] := by
  have held : [call].flatMap (Call.collected pipeline) = [document] := by
    rw [List.flatMap_singleton, Call.collected, given]
    rfl
  rw [run, foldl_call, show (new pipeline).pipeline = pipeline from rfl, held, entries_singleton]

/-- What a call gives is known after it. -/
theorem key_mem_run {pipeline : Pipeline} {calls : List Call} {call : Call}
    (made : call ∈ calls) :
    ∀ document ∈ call.collected pipeline,
      document.canonicalKey ∈ (run pipeline calls).manifest.keys := by
  intro document given
  rw [run, foldl_call]
  exact key_mem_foldl (List.mem_flatMap.2 ⟨call, made, given⟩)

/-- After a call with a document there is an entry for each of its reductions. -/
theorem lookup_of_mem_reductions {pipeline : Pipeline} {calls : List Call}
    {reductions : List Document} {reduced : Document} (made : .document document ∈ calls)
    (given : pipeline.reductions document = .ok reductions) (among : reduced ∈ reductions) :
    ∃ entry, (run pipeline calls).manifest.lookup reduced.canonicalKey = .ok entry ∧
      entry.key = reduced.canonicalKey ∧ entry.document.print = reduced.canonicalKey := by
  have collected : reduced ∈ (Call.document document).collected pipeline := by
    rw [Call.collected, Call.reductions, given]
    exact among
  rcases (sound_run pipeline calls).lookup_of_mem_keys (key_mem_run made reduced collected) with
    ⟨entry, _, found⟩
  exact ⟨entry, found⟩

/-- After any calls a builder holds the first reduction with each key among all that the successful
calls have given, numbered in this order. The next call fails exactly for one of the three reasons
and changes nothing then, nor does a blank text or a call that has succeeded before; what the
builder holds is never changed but only continued. -/
theorem entries_run (pipeline : Pipeline) (calls : List Call) :
    let builder := run pipeline calls
    builder.pipeline = pipeline ∧
    builder.manifest.entries =
      Entry.numbered 1 (Document.firsts (calls.flatMap (Call.collected pipeline))) ∧
    builder.last = builder.manifest.size ∧
    (∀ call, call.Fails pipeline → ∃ failure, builder.answer call = .error failure ∧
      builder.perform call = (.error failure, builder)) ∧
    (∀ call, ¬call.Fails pipeline →
      builder.answer call = .ok (run pipeline (calls ++ [call])) ∧
        builder.perform call = (.ok (), run pipeline (calls ++ [call]))) ∧
    (∀ call, call.IsBlank → builder.perform call = (.ok (), builder)) ∧
    (∀ more, builder.manifest.entries <+: (run pipeline (calls ++ more)).manifest.entries) ∧
    ∀ call ∈ calls, ¬call.Fails pipeline → builder.perform call = (.ok (), builder) := by
  intro builder
  have same : builder.pipeline = pipeline := pipeline_run pipeline calls
  have ran : builder = (calls.flatMap (Call.collected pipeline)).foldl addReduced (new pipeline) :=
    foldl_call (new pipeline) calls
  have ⟨entries, last⟩ := entries_foldl (new pipeline) (calls.flatMap (Call.collected pipeline))
  rw [← ran, news_new] at entries last
  refine ⟨same, entries, ?_, ?_, ?_, fun call => perform_of_isBlank, ?_, ?_⟩
  · rw [last, Manifest.size, entries]
    simp [new, Manifest.empty, Entry.numbered]
  · intro call fails
    exact perform_of_fails (same ▸ fails)
  · intro call succeeds
    rw [run_append]
    exact perform_of_not_fails (same ▸ succeeds)
  · intro more
    rw [run_append, foldl_call, (entries_foldl _ _).1]
    exact List.prefix_append _ _
  · intro call made succeeds
    rw [(perform_of_not_fails (same ▸ succeeds)).2, call_eq, same,
      foldl_addReduced_of_known (key_mem_run made)]

/-- A blank text, a document with two queries of which the first spreads a fragment, and one in
which the second of two queries spreads an undefined fragment: two entries are held, and neither a
failure nor a repeated call changes them. -/
theorem entries_run_of_missing_fragment :
    let field : Selection := .field ⟨.nowhere, none, "a", [], []⟩ .nowhere []
    let query (name : String) (item : Selection) : Operation :=
      ⟨some ⟨.nowhere, .query, some name, [], []⟩, .nowhere, [item]⟩
    let fragment : Fragment := ⟨.nowhere, "f", "T", [], .nowhere, [field]⟩
    let a : Operation := query "A" (.spread .nowhere "f" [])
    let b : Operation := query "B" field
    let known : Document := ⟨[.fragment fragment, .operation a, .operation b]⟩
    let missing : Document :=
      ⟨[.operation (query "D" field), .operation (query "C" (.spread .nowhere "c" []))]⟩
    let builder := run [.addTypename] [.source " ", .document known, .document missing]
    builder.manifest.entries =
        [⟨"query A \x7b\n  ...f\n\x7d\n\nfragment f on T \x7b\n  a\n\x7d\n", .number 1,
            ⟨[.operation a, .fragment fragment]⟩⟩,
          ⟨"query B \x7b\n  a\n\x7d\n", .number 2, .ofOperation b⟩] ∧
      builder.last = builder.manifest.size ∧
      (∃ failure, builder.perform (.document missing) = (.error failure, builder)) ∧
      builder.perform (.source " ") = (.ok (), builder) ∧
      builder.perform (.document known) = (.ok (), builder) := by
  intro field query fragment a b known missing builder
  let first : Document := ⟨[.operation a, .fragment fragment]⟩
  let second : Document := .ofOperation b
  have refused : (Call.document missing).reductions [.addTypename] =
      .error (.missingFragment "c") := by cbv
  have given : (Call.document known).reductions [.addTypename] = .ok [first, second] := by cbv
  have keyed : ∀ reduced ∈ [first, second], reduced.canonicalKey = reduced.print :=
    canonicalKey_of_reductions given
  have fails : (Call.document missing).Fails [.addTypename] := Call.fails_iff.1 ⟨_, refused⟩
  have succeeds : ¬(Call.document known).Fails [.addTypename] := by
    intro fails
    rcases Call.fails_iff.2 fails with ⟨failure, failed⟩
    cases failed.symm.trans given
  have firstKey : first.canonicalKey =
      "query A \x7b\n  ...f\n\x7d\n\nfragment f on T \x7b\n  a\n\x7d\n" := by
    rw [keyed first (by simp)]
    simp only [first, a, query, fragment, field]
    decide +kernel
  have secondKey : second.canonicalKey = "query B \x7b\n  a\n\x7d\n" := by
    rw [keyed second (by simp)]
    simp only [second, b, query, field]
    decide +kernel
  have firsts : Document.firsts [first, second] = [first, second] := by
    apply Document.firsts_of_nodup
    rw [List.map_cons, List.map_singleton, firstKey, secondKey]
    decide
  obtain ⟨_, entries, last, unchanged, _, blank, _, again⟩ :=
    entries_run [.addTypename] [.source " ", .document known, .document missing]
  refine ⟨?_, last, ?_, blank (.source " ") rfl, again _ (by simp) succeeds⟩
  · have held : [Call.source " ", .document known, .document missing].flatMap
        (Call.collected [.addTypename]) = [first, second] := by
      simp only [List.flatMap_cons, List.flatMap_nil, Call.collected, given, refused]
      rfl
    rw [entries, held, firsts, ← firstKey, ← secondKey]
    rfl
  · rcases unchanged (.document missing) fails with ⟨failure, _, performed⟩
    exact ⟨failure, performed⟩

end Builder

end PersistedDocuments
