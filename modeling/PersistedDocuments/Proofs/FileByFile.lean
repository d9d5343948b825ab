import Mathlib
import PersistedDocuments.Proofs.Crawl
import PersistedDocuments.Proofs.GraphQL.Joining
import PersistedDocuments.Proofs.Manifest.Collection

/-!
# Extraction file by file

An extraction reads all its files as one document, which lets an operation use the fragments of
another file. Where no file needs those of another, and no two files define a fragment of one name,
this makes no difference: the manifest is that of a builder that is given one file after the other.
-/

namespace PersistedDocuments

open GraphQL

/-! ## Documents that do not need one another -/

namespace GraphQL.Document

/-- Every name that an operation reaches is defined. -/
def Closed (document : Document) : Prop :=
  ∀ operation ∈ document.operations, ∀ name,
    document.Reaches operation.selectionSet.spreads name → document.fragment? name ≠ none

/-- No fragment of the one document has the name of a fragment of the other. -/
def Apart (first second : Document) : Prop :=
  ∀ fragment ∈ first.fragments, ∀ other ∈ second.fragments, fragment.name ≠ other.name

variable {document : Document} {documents : List Document} {name : String} {fragment : Fragment}

theorem fragments_concat_cons (first : Document) (rest : List Document) :
    (concat (first :: rest)).fragments = first.fragments ++ (concat rest).fragments := by
  rw [concat, List.flatMap_cons]
  exact List.filterMap_append

theorem operations_concat (documents : List Document) :
    (concat documents).operations = documents.flatMap operations := by
  induction documents with
  | nil => rfl
  | cons first rest ih =>
      rw [concat, List.flatMap_cons, operations, List.filterMap_append, List.flatMap_cons, ← ih]
      rfl

/-- What one of the documents defines, all of them together define in the same way. -/
theorem fragment?_concat (apart : documents.Pairwise Apart) (present : document ∈ documents)
    (defined : document.fragment? name = some fragment) :
    (concat documents).fragment? name = some fragment := by
  induction documents with
  | nil => cases present
  | cons first rest ih =>
      rcases List.pairwise_cons.1 apart with ⟨here, later⟩
      rw [fragment?, fragments_concat_cons, List.find?_append]
      rcases List.mem_cons.1 present with rfl | behind
      · rw [fragment?] at defined
        rw [defined]
        rfl
      · rcases fragment?_eq_some defined with ⟨member, named⟩
        have absent : first.fragments.find? (fun other => other.name = name) = none := by
          rw [List.find?_eq_none]
          intro other among same
          exact here document behind other among fragment member
            (by rw [named]; exact of_decide_eq_true same)
        rw [absent]
        exact ih later behind

/-- Together with the others a document reduces its operations as it does alone. -/
theorem reduce_concat (apart : documents.Pairwise Apart) (present : document ∈ documents)
    (closed : document.Closed) {operation : Operation} (member : operation ∈ document.operations) :
    (concat documents).reduce operation = document.reduce operation := by
  refine (reduce_congr fun name reached => ?_).symm
  cases defined : document.fragment? name with
  | none => exact absurd defined (closed operation member name reached)
  | some fragment => exact (fragment?_concat apart present defined).symm

/-- A document is closed if all its operations can be reduced. -/
theorem closed_iff :
    document.Closed ↔
      ∀ operation ∈ document.operations, ∃ reduced, document.reduce operation = .ok reduced := by
  refine forall₂_congr fun operation member => ?_
  cases reduces : document.reduce operation with
  | ok reduced =>
      refine iff_of_true (fun name reached undefined => ?_) ⟨reduced, rfl⟩
      rcases reduce_fails_iff.2 ⟨name, reached, undefined⟩ with ⟨failure, failed⟩
      rw [reduces] at failed
      cases failed
  | error failure =>
      rcases reduce_fails_iff.1 ⟨failure, reduces⟩ with ⟨name, reached, undefined⟩
      exact iff_of_false (fun closed => closed name reached undefined) fun ⟨_, ok⟩ => nomatch ok

/-- The reductions of all documents together are those of each of them, in their order. -/
theorem mapM_reduce_concat (apart : documents.Pairwise Apart)
    (closed : ∀ document ∈ documents, document.Closed) :
    ∃ reductions, List.Forall₂
        (fun document reduced => document.operations.mapM document.reduce = .ok reduced)
        documents reductions ∧
      (concat documents).operations.mapM (concat documents).reduce = .ok reductions.flatten := by
  have each : ∀ document ∈ documents, ∃ reduced, List.Forall₂ (fun operation result =>
      document.reduce operation = .ok result ∧ (concat documents).reduce operation = .ok result)
      document.operations reduced := by
    intro document present
    apply exists_forall₂
    intro operation member
    rcases closed_iff.1 (closed document present) operation member with ⟨reduced, reduces⟩
    refine ⟨reduced, reduces, ?_⟩
    rw [reduce_concat apart present (closed document present) member, reduces]
  rcases exists_forall₂ each with ⟨reductions, reduced⟩
  refine ⟨reductions, reduced.imp fun document results both => ?_, ?_⟩
  · exact mapM_eq_ok.2 (both.imp fun _ _ reduces => reduces.1)
  · rw [operations_concat, mapM_eq_ok]
    apply List.rel_flatten
    rw [List.forall₂_map_left_iff]
    exact reduced.imp fun document results both => both.imp fun _ _ reduces => reduces.2

end GraphQL.Document

namespace Pipeline

/-- Places play no part in what is left of a document. -/
theorem reductions_erase (n : Nat) (document : Document) :
    reductions (List.replicate n .addTypename) document.erase =
      (reductions (List.replicate n .addTypename) document).map (List.map Document.erase) := by
  induction n generalizing document with
  | zero =>
      have erased := Rewriting.erase.mapM_reduce_run document
      rw [Rewriting.run_erase, funext Rewriting.run_erase] at erased
      exact erased
  | succ n ih =>
      have step := ih document.addTypename
      rw [Document.erase_addTypename] at step
      exact step

end Pipeline

/-! ## Builders that differ in places only -/

/-- The entry without the places in its document. -/
def Entry.erase (entry : Entry) : Entry := { entry with document := entry.document.erase }

/-- The key of an entry, its identifier and its printed document. -/
def Entry.shown (entry : Entry) : String × QueryId × String :=
  (entry.key, entry.id, entry.document.print)

theorem Entry.shown_erase (entry : Entry) : entry.erase.shown = entry.shown := by
  rw [shown, erase, Document.print_erase, shown]

namespace Builder

/-- The builders hold the same up to places. -/
structure Alike (builder other : Builder) : Prop where
  last : builder.last = other.last
  entries : builder.manifest.entries.map Entry.erase = other.manifest.entries.map Entry.erase

namespace Alike

variable {builder other : Builder}

theorem keys (alike : Alike builder other) : builder.manifest.keys = other.manifest.keys := by
  have same := congrArg (List.map Entry.key) alike.entries
  rw [List.map_map, List.map_map] at same
  exact same

theorem shown (alike : Alike builder other) :
    builder.manifest.entries.map Entry.shown = other.manifest.entries.map Entry.shown := by
  have same := congrArg (List.map Entry.shown) alike.entries
  rw [List.map_map, List.map_map] at same
  rwa [show Entry.shown ∘ Entry.erase = Entry.shown from funext Entry.shown_erase] at same

theorem addReduced (alike : Alike builder other) {document otherDocument : Document}
    (same : document.erase = otherDocument.erase) :
    Alike (builder.addReduced document) (other.addReduced otherDocument) := by
  have sameKey : document.canonicalKey = otherDocument.canonicalKey := by
    rw [← Document.canonicalKey_erase, same, Document.canonicalKey_erase]
  by_cases known : document.canonicalKey ∈ builder.manifest.keys
  · have otherKnown := known
    rw [sameKey, alike.keys] at otherKnown
    rw [addReduced_of_mem known, addReduced_of_mem otherKnown]
    exact alike
  · have otherFresh := known
    rw [sameKey, alike.keys] at otherFresh
    constructor
    · rw [last_addReduced known, last_addReduced otherFresh, alike.last]
    · rw [entries_addReduced known, entries_addReduced otherFresh, List.map_append,
        List.map_append, alike.entries, alike.last, sameKey, List.map_singleton,
        List.map_singleton, Entry.erase, Entry.erase, same]

theorem foldl (alike : Alike builder other) {documents others : List Document}
    (same : documents.map Document.erase = others.map Document.erase) :
    Alike (documents.foldl Builder.addReduced builder) (others.foldl Builder.addReduced other) := by
  induction documents generalizing builder other others with
  | nil =>
      cases List.map_eq_nil_iff.1 same.symm
      exact alike
  | cons document rest ih =>
      cases others with
      | nil => cases same
      | cons otherDocument others =>
          have ⟨head, tail⟩ := List.cons.inj same
          exact ih (alike.addReduced head) tail

end Alike

/-- Texts that are given one after the other add all that each of them gives. -/
theorem foldlM_addSource {builder : Builder} {texts : List String}
    {reductions : List (List Document)}
    (each : List.Forall₂
      (fun text reduced => (Call.source text).reductions builder.pipeline = .ok reduced)
      texts reductions) :
    texts.foldlM addSource builder = .ok (reductions.flatten.foldl addReduced builder) := by
  induction texts generalizing builder reductions with
  | nil =>
      cases each
      rfl
  | cons text rest ih =>
      cases each with
      | @cons _ reduced _ others given later =>
          have added : builder.addSource text = .ok (reduced.foldl addReduced builder) := by
            have answered := answer_eq builder (.source text)
            rw [given] at answered
            exact answered
          have samePipeline := pipeline_foldl builder reduced
          rw [← samePipeline] at later
          rw [List.foldlM_cons, added, List.flatten_cons, List.foldl_append]
          exact ih later

end Builder

/-! ## Texts -/

theorem GraphQL.IsSpacing.allBlank {text : String} (spacing : IsSpacing text) :
    Text.allBlank text.toList = true := by
  rw [Text.allBlank, List.all_eq_true]
  intro c present
  rcases spacing c present with rfl | rfl | rfl | rfl <;> rfl

/-- A text gives to a builder what the document that it holds gives. -/
theorem GraphQL.Holds.reductions {pipeline : Pipeline} {rewriting : Rewriting}
    (runs : ∀ document, pipeline.run document = .ok (rewriting.run document)) {text : String}
    {document : Document} (holds : Holds text document) :
    (Builder.Call.source text).reductions pipeline = pipeline.reductions document := by
  cases holds with
  | spacing spacing =>
      rw [Builder.Call.reductions, if_pos spacing.allBlank, Pipeline.reductions_of_runs runs]
      rfl
  | parsed parsed =>
      exact Builder.Call.reductions_of_parse (Document.allBlank_of_parse parsed) parsed

theorem Settings.exists_pipeline (settings : Settings) :
    ∃ n, settings.pipeline = List.replicate n .addTypename := by
  rw [pipeline]
  split
  · exact ⟨1, rfl⟩
  · exact ⟨0, rfl⟩

/-- What texts give is what is left of the documents that they hold. -/
theorem GraphQL.Holds.forall₂_reductions {pipeline : Pipeline} {rewriting : Rewriting}
    (runs : ∀ document, pipeline.run document = .ok (rewriting.run document))
    {texts : List String} {documents : List Document} {reductions : List (List Document)}
    (hold : List.Forall₂ Holds texts documents)
    (each : List.Forall₂
      (fun document reduced => document.operations.mapM document.reduce = .ok reduced)
      documents reductions) :
    List.Forall₂
      (fun text reduced => (Builder.Call.source text).reductions pipeline = .ok reduced)
      texts (reductions.map (List.map rewriting.run)) := by
  induction hold generalizing reductions with
  | nil =>
      cases each
      exact .nil
  | cons holds _ ih =>
      cases each with
      | cons reduced later =>
          refine .cons ?_ (ih later)
          rw [holds.reductions runs, Pipeline.reductions_of_runs runs, reduced]
          rfl

/-- If every file is blank or a document that defines all its operations reach, and no two files
define a fragment of one name, then the extraction succeeds, and its manifest has the same keys, in
the same order and with the same identifiers and printed documents, as a builder that is given one
file after the other. -/
theorem Settings.extract_eq_foldlM_addSource (settings : Settings) (disk : Disk) (input : String)
    {texts : List String} {documents : List Document}
    (found : settings.texts disk input = .ok texts)
    (hold : List.Forall₂ Holds texts documents)
    (closed : ∀ document ∈ documents, document.Closed)
    (apart : documents.Pairwise Document.Apart) :
    ∃ manifest builder, (settings.extract disk input).Ends (.ok manifest) ∧
      texts.foldlM Builder.addSource (Builder.new settings.pipeline) = .ok builder ∧
      manifest.entries.map Entry.shown = builder.manifest.entries.map Entry.shown := by
  rcases settings.exists_pipeline with ⟨n, pipeline⟩
  rcases Pipeline.exists_rewriting_replicate n with ⟨rewriting, runs⟩
  rw [← pipeline] at runs
  rcases Holds.intercalate hold with ⟨joined, holdsJoined, sameTree⟩
  rcases Document.mapM_reduce_concat apart closed with ⟨reductions, each, together⟩
  have oneByOne : texts.foldlM Builder.addSource (Builder.new settings.pipeline) = _ :=
    Builder.foldlM_addSource (Holds.forall₂_reductions runs hold each)
  rw [← List.map_flatten] at oneByOne
  have sameReductions : (settings.pipeline.reductions joined).map (List.map Document.erase) =
      .ok ((reductions.flatten.map rewriting.run).map Document.erase) := by
    rw [pipeline, ← Pipeline.reductions_erase, sameTree, Pipeline.reductions_erase, ← pipeline,
      Pipeline.reductions_of_runs runs, together]
    rfl
  rcases map_eq_ok.1 sameReductions with ⟨reducedJoined, reduced, sameErased⟩
  have added : (Builder.new settings.pipeline).addSource ("\n".intercalate texts) =
      .ok (reducedJoined.foldl Builder.addReduced (Builder.new settings.pipeline)) := by
    have answered := Builder.answer_eq (Builder.new settings.pipeline)
      (.source ("\n".intercalate texts))
    rw [show (Builder.new settings.pipeline).pipeline = settings.pipeline from rfl,
      holdsJoined.reductions runs, reduced] at answered
    exact answered
  have ends := settings.ends_extract disk input
  rw [extraction_of_addSource found added] at ends
  have start : (Builder.new settings.pipeline).Alike (Builder.new settings.pipeline) := ⟨rfl, rfl⟩
  exact ⟨_, _, ends, oneByOne, (start.foldl sameErased).shown⟩

/-- A file that ends inside a comment, one without any document, and one behind a byte order mark,
in a directory that lists them in another order: their two operations are found in the order of the
names of the files. -/
theorem Settings.extract_eq_foldlM_addSource_of_comment :
    let settings : Settings := { Settings.default with addTypename := true }
    let first := "query A\x7b...f\x7dfragment f on T\x7ba\x7d#\x7b"
    let second := " \t\r\n"
    let third := "\uFEFF\x7bb\x7d"
    let key := "query A \x7b\n  ...f\n\x7d\n\nfragment f on T \x7b\n  a\n\x7d\n"
    let otherKey := "\x7b\n  b\n\x7d\n"
    let disk : Disk := ⟨.directory [("d", .directory [("c.graphql", .file third.toUTF8),
      ("a.graphql", .file first.toUTF8), ("b.graphql", .file second.toUTF8)])], []⟩
    ∃ manifest builder, (settings.extract disk "d").Ends (.ok manifest) ∧
      [first, second, third].foldlM Builder.addSource (Builder.new settings.pipeline) =
        .ok builder ∧
      manifest.entries.map Entry.shown = builder.manifest.entries.map Entry.shown ∧
      manifest.entries.map Entry.shown =
        [(key, .number 1, key), (otherKey, .number 2, otherKey)] := by
  intro settings first second third key otherKey disk
  let field (column : Nat) (name : String) : Selection :=
    .field ⟨⟨1, column⟩, none, name, [], []⟩ ⟨⟨1, column⟩, ⟨1, column⟩⟩ []
  let query : Document := ⟨[
    .operation ⟨some ⟨⟨1, 1⟩, .query, some "A", [], []⟩, ⟨⟨1, 8⟩, ⟨1, 13⟩⟩,
      [.spread ⟨1, 9⟩ "f" []]⟩,
    .fragment ⟨⟨1, 14⟩, "f", "T", [], ⟨⟨1, 29⟩, ⟨1, 31⟩⟩, [field 30 "a"]⟩]⟩
  let other : Document := .ofOperation ⟨none, ⟨⟨1, 1⟩, ⟨1, 3⟩⟩, [field 2 "b"]⟩
  have visits (a b c : ByteArray) :
      Node.walk "d" (.directory [("c.graphql", .file c), ("a.graphql", .file a),
        ("b.graphql", .file b)]) =
        [.file ⟨"d/a.graphql", a⟩, .file ⟨"d/b.graphql", b⟩, .file ⟨"d/c.graphql", c⟩] := by cbv
  have chosen (a b c : ByteArray) :
      [Visit.file ⟨"d/a.graphql", a⟩, .file ⟨"d/b.graphql", b⟩,
        .file ⟨"d/c.graphql", c⟩].filterMap
        (Settings.chosen? { Settings.default with addTypename := true }) =
        [⟨"d/a.graphql", a⟩, ⟨"d/b.graphql", b⟩, ⟨"d/c.graphql", c⟩] := by cbv
  have located (node : Node) : Disk.find? ⟨.directory [("d", node)], []⟩ "d" = some node := by cbv
  have found : settings.texts disk "d" = .ok [first, second, third] := by
    rw [texts, located]
    dsimp only
    rw [visits, chosen, mapM_eq_ok]
    exact .cons (fileText_toUTF8 _ rfl (by cbv) _) (.cons (fileText_toUTF8 _ rfl (by cbv) _)
      (.cons (fileText_toUTF8 _ rfl (by cbv) _) .nil))
  have parsed : Document.parse "query A\x7b...f\x7dfragment f on T\x7ba\x7d#\x7b" = .ok query := by
    cbv
  have otherParsed : Document.parse "\uFEFF\x7bb\x7d" = .ok other := by cbv
  have spacing : IsSpacing second := by
    intro c present
    simpa [second] using present
  have hold : List.Forall₂ Holds [first, second, third] [query, ⟨[]⟩, other] :=
    .cons (.parsed parsed) (.cons (.spacing spacing) (.cons (.parsed otherParsed) .nil))
  have closed : ∀ document ∈ [query, ⟨[]⟩, other], document.Closed := by
    intro document present
    simp only [List.mem_cons, List.not_mem_nil, or_false] at present
    rw [Document.closed_iff]
    rcases present with rfl | rfl | rfl
    · intro operation member
      cases List.mem_singleton.1 member
      exact ⟨query, by cbv⟩
    · intro operation absent
      cases absent
    · intro operation member
      cases List.mem_singleton.1 member
      exact ⟨other, by cbv⟩
  have apart : [query, ⟨[]⟩, other].Pairwise Document.Apart := by
    simp [Document.Apart, Document.fragments, other, Document.ofOperation, Definition.fragment?]
  have reduced : settings.pipeline.reductions query = .ok [query] := by cbv
  have otherReduced : settings.pipeline.reductions other = .ok [other] := by cbv
  have printed : query.print = key := by
    simp only [query, key, field]
    decide +kernel
  have otherPrinted : other.print = otherKey := by
    simp only [other, otherKey, field]
    decide +kernel
  have keyed : query.canonicalKey = key := by
    rw [Builder.canonicalKey_of_reductions reduced query (by simp), printed]
  have otherKeyed : other.canonicalKey = otherKey := by
    rw [Builder.canonicalKey_of_reductions otherReduced other (by simp), otherPrinted]
  have firsts : Document.firsts [query, other] = [query, other] := by
    apply Document.firsts_of_nodup
    rw [List.map_cons, List.map_singleton, keyed, otherKeyed]
    simp only [key, otherKey]
    decide
  rcases Pipeline.exists_rewriting_replicate 1 with ⟨rewriting, runs⟩
  have gives : List.Forall₂
      (fun text reduced => (Builder.Call.source text).reductions settings.pipeline = .ok reduced)
      [first, second, third] [[query], [], [other]] :=
    .cons (((Holds.parsed parsed).reductions runs).trans reduced)
      (.cons (((Holds.spacing spacing).reductions runs).trans rfl)
        (.cons (((Holds.parsed otherParsed).reductions runs).trans otherReduced) .nil))
  have held := Builder.entries_foldl_new settings.pipeline [query, other]
  rw [firsts] at held
  rcases extract_eq_foldlM_addSource settings disk "d" found hold closed apart with
    ⟨manifest, builder, ends, accepted, same⟩
  refine ⟨manifest, builder, ends, accepted, same, same.trans ?_⟩
  cases accepted.symm.trans (Builder.foldlM_addSource gives)
  refine (congrArg (List.map Entry.shown) held).trans ?_
  simp [Entry.numbered, Entry.shown, keyed, printed, otherKeyed, otherPrinted]

end PersistedDocuments
