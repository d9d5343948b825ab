import Mathlib
import PersistedDocuments.Proofs.GraphQL.Alike
import PersistedDocuments.Proofs.GraphQL.RoundTrip
import PersistedDocuments.Proofs.Manifest.Builder

/-!
# Queries that share a key

A key tells everything about a query but what the printer does not show: places, the variables of a
subscription without a name, and the difference between strings that are printed alike. Two
reductions have one key exactly if they are shown alike, and a builder leaves out an operation only
if it has an entry that is shown like it.
-/

namespace PersistedDocuments

namespace GraphQL.Document

/-- The document as far as its printed form tells it. -/
def shown (document : Document) : Document :=
  (document.written.mapStrings fun _ => exemplar).erase

/-- Nothing but places is lost when the document is printed. -/
structure Faithful (document : Document) : Prop where
  written : ¬document.HidesVariables
  strings : ∀ indent text, .string indent text ∈ document.words → exemplar text = text

variable {document other first second : Document}

theorem chars_shown (document : Document) : document.shown.chars = document.chars := by
  rw [shown, chars_erase, chars_mapStrings stringChars_exemplar, chars_written]

/-- The exemplar of a string can be told from its printed form. -/
theorem exists_restore :
    ∃ restore : Nat → String → String,
      ∀ indent text, restore indent (spelledString indent text) = exemplar text := by
  refine ⟨fun indent => Function.extend (spelledString indent) exemplar id, fun indent text => ?_⟩
  apply Function.FactorsThrough.extend_apply
  intro left right same
  exact exemplar_eq_exemplar.2 (String.ofList_inj.1 same)

/-- Documents are printed alike exactly if they are shown alike. -/
theorem chars_eq_chars (fits : first.Fits) (otherFits : second.Fits) (floatFree : first.FloatFree)
    (otherFloatFree : second.FloatFree) :
    first.chars = second.chars ↔ first.shown = second.shown := by
  constructor
  · intro same
    rcases exists_restore with ⟨restore, restored⟩
    rw [← chars_written first, ← chars_written second] at same
    have spelled := spelled_of_chars fits.written otherFits.written floatFree.written
      otherFloatFree.written first.not_hidesVariables_written second.not_hidesVariables_written same
    have exemplars := congrArg (mapStrings restore) spelled
    rw [← erase_mapStrings, ← erase_mapStrings, mapStrings_mapStrings, mapStrings_mapStrings]
      at exemplars
    simp only [restored] at exemplars
    exact exemplars
  · intro same
    rw [← chars_shown first, same, chars_shown]

theorem Faithful.shown (faithful : document.Faithful) (fits : document.Fits) :
    document.shown = document.erase := by
  rw [Document.shown, document.written_eq_self.2 faithful.written]
  exact erase_mapStrings_eq_erase fits faithful.strings

end GraphQL.Document

open GraphQL

/-! ## Builders of printed queries -/

/-- A call with documents that come from texts and hold no floats. -/
def Builder.Call.Printable : Builder.Call → Prop
  | .document given => given.Derived ∧ given.FloatFree
  | .source text => ∀ given, Document.parse text = .ok given → given.FloatFree

/-- A builder that adds nothing but type names, with entries that come from texts and hold no
floats. -/
structure Builder.Printable (builder : Builder) : Prop where
  pipeline : ∃ n, builder.pipeline = List.replicate n .addTypename
  entries : ∀ entry ∈ builder.manifest.entries, entry.document.Derived ∧ entry.document.FloatFree

theorem Pipeline.derived_of_run {n : Nat} {document transformed : Document}
    (derived : document.Derived) (floatFree : document.FloatFree)
    (ran : Pipeline.run (List.replicate n .addTypename) document = .ok transformed) :
    transformed.Derived ∧ transformed.FloatFree := by
  induction n generalizing document with
  | zero =>
      cases ran
      exact ⟨derived, floatFree⟩
  | succ n ih => exact ih derived.addTypename floatFree.addTypename ran

theorem Builder.Call.Printable.of_gives {call : Builder.Call} {document : Document}
    (printable : call.Printable) (gives : call.Gives document) :
    document.Derived ∧ document.FloatFree := by
  cases call with
  | document given =>
      cases gives
      exact printable
  | source text =>
      have parsed := readDocument_eq_ok.1 gives
      exact ⟨.parsed parsed, printable document parsed⟩

theorem Builder.Call.Printable.of_parse {text : String} {document : Document}
    (parsed : Document.parse text = .ok document) (floatFree : document.FloatFree) :
    (Builder.Call.source text).Printable := by
  intro given read
  cases parsed.symm.trans read
  exact floatFree

namespace Builder.Printable

variable {builder after : Builder} {document : Document}

theorem reductions (printable : builder.Printable) (derived : document.Derived)
    (floatFree : document.FloatFree) {reductions : List Document}
    (reduced : builder.pipeline.reductions document = .ok reductions) :
    ∀ reduction ∈ reductions, reduction.Derived ∧ reduction.FloatFree := by
  rcases printable.pipeline with ⟨n, same⟩
  rw [same] at reduced
  rcases reductions_eq_ok.1 reduced with ⟨transformed, ran, each⟩
  have ⟨fromText, noFloats⟩ := Pipeline.derived_of_run derived floatFree ran
  intro reduction present
  rcases exists_of_mem_forall₂ each present with ⟨operation, among, reduces⟩
  exact ⟨.reduced fromText among reduces, noFloats.reduce among reduces⟩

theorem addReduced (printable : builder.Printable) (derived : document.Derived)
    (floatFree : document.FloatFree) : (builder.addReduced document).Printable := by
  constructor
  · rw [pipeline_addReduced]
    exact printable.pipeline
  · intro entry present
    rcases mem_addReduced present with old | rfl
    · exact printable.entries entry old
    · exact ⟨derived, floatFree⟩

theorem addDocument (printable : builder.Printable) (derived : document.Derived)
    (floatFree : document.FloatFree) (succeeded : builder.addDocument document = .ok after) :
    after.Printable := by
  rcases addDocument_eq_ok.1 succeeded with ⟨reductions, reduced, rfl⟩
  have each := printable.reductions derived floatFree reduced
  apply List.foldlRecOn reductions Builder.addReduced printable
  intro before printable reduction present
  have ⟨fromText, noFloats⟩ := each reduction present
  exact printable.addReduced fromText noFloats

theorem call (printable : builder.Printable) {call : Call} (given : call.Printable) :
    (builder.call call).Printable := by
  rcases builder.call_cases call with same | ⟨document, gives, added⟩
  · rw [same]
    exact printable
  · have ⟨derived, floatFree⟩ := given.of_gives gives
    exact printable.addDocument derived floatFree added

end Builder.Printable

/-- What a builder holds comes from texts when it has been given nothing else. -/
theorem Builder.printable_run (n : Nat) {calls : List Builder.Call}
    (given : ∀ call ∈ calls, call.Printable) :
    (Builder.run (List.replicate n .addTypename) calls).Printable := by
  have start : (Builder.new (List.replicate n .addTypename)).Printable :=
    ⟨⟨n, rfl⟩, fun _ absent => (nomatch absent)⟩
  apply List.foldlRecOn calls Builder.call start
  intro before printable call present
  exact printable.call (given call present)

/-! ## Queries with one key -/

/-- Reductions of documents that come from texts have one key exactly if they are shown alike. Those
that are printed faithfully are then equal up to places, and an operation that a builder leaves out
is shown like the entry that the builder has instead. -/
theorem GraphQL.Document.Derived.canonicalKey_eq_canonicalKey {document other : Document}
    (derived : document.Derived) (otherDerived : other.Derived) (floatFree : document.FloatFree)
    (otherFloatFree : other.FloatFree) {operation otherOperation : Operation}
    (present : operation ∈ document.operations) (otherPresent : otherOperation ∈ other.operations)
    {reduced otherReduced : Document} (reduces : document.reduce operation = .ok reduced)
    (otherReduces : other.reduce otherOperation = .ok otherReduced) :
    (reduced.canonicalKey = otherReduced.canonicalKey ↔ reduced.shown = otherReduced.shown) ∧
      (reduced.Faithful → otherReduced.Faithful →
        (reduced.canonicalKey = otherReduced.canonicalKey ↔ reduced.erase = otherReduced.erase)) ∧
      ∀ (n : Nat) (calls : List Builder.Call), (∀ call ∈ calls, call.Printable) →
        let manifest := (Builder.run (List.replicate n .addTypename) calls).manifest
        reduced.canonicalKey ∈ manifest.keys →
          ∃ entry, manifest.lookup reduced.canonicalKey = .ok entry ∧
            entry.document.shown = reduced.shown := by
  have fits := (Document.Derived.reduced derived present reduces).fits
  have otherFits := (Document.Derived.reduced otherDerived otherPresent otherReduces).fits
  have noFloats := floatFree.reduce present reduces
  have otherNoFloats := otherFloatFree.reduce otherPresent otherReduces
  have alike : reduced.canonicalKey = otherReduced.canonicalKey ↔
      reduced.shown = otherReduced.shown := by
    rw [Document.canonicalKey_of_reduce reduces, Document.canonicalKey_of_reduce otherReduces,
      Document.print, Document.print, String.ofList_inj]
    exact Document.chars_eq_chars fits otherFits noFloats otherNoFloats
  refine ⟨alike, ?_, ?_⟩
  · intro faithful otherFaithful
    rw [alike, faithful.shown fits, otherFaithful.shown otherFits]
  · intro n calls given manifest known
    rcases Manifest.lookup_of_mem_keys known with ⟨entry, member, key, found⟩
    have sound := Builder.sound_run (List.replicate n .addTypename) calls
    have ⟨fromText, entryNoFloats⟩ := (Builder.printable_run n given).entries entry member
    refine ⟨entry, found, ?_⟩
    rw [← Document.chars_eq_chars fromText.fits fits entryNoFloats noFloats]
    apply String.ofList_inj.1
    change entry.document.print = reduced.print
    rw [← Document.canonicalKey_of_reduce reduces, ← key]
    exact sound.printed entry member

/-- One query in two layouts: the builder that has been given the one leaves out the other. -/
theorem GraphQL.Document.Derived.canonicalKey_eq_canonicalKey_of_layouts :
    let query (column : Nat) (last : Pos) : Operation :=
      ⟨none, ⟨⟨1, 1⟩, last⟩,
        [.field ⟨⟨1, column⟩, none, "a", [], []⟩ ⟨⟨1, column⟩, ⟨1, column⟩⟩ []]⟩
    let dense := query 2 ⟨1, 3⟩
    let wide := query 3 ⟨1, 5⟩
    let manifest := (Builder.run [] [.source "\x7ba\x7d"]).manifest
    (Document.ofOperation dense).canonicalKey = (Document.ofOperation wide).canonicalKey ∧
      ∃ entry, manifest.lookup (Document.ofOperation wide).canonicalKey = .ok entry ∧
        entry.document.shown = (Document.ofOperation wide).shown := by
  intro query dense wide manifest
  have parsed : Document.parse "\x7ba\x7d" = .ok (.ofOperation dense) := by cbv
  have otherParsed : Document.parse "\x7b a \x7d" = .ok (.ofOperation wide) := by cbv
  have floatFree : (Document.ofOperation dense).FloatFree := by
    simp only [dense, query]
    decide
  have otherFloatFree : (Document.ofOperation wide).FloatFree := by
    simp only [wide, query]
    decide
  have reduces (column : Nat) (last : Pos) : (Document.ofOperation (query column last)).reduce
      (query column last) = .ok (.ofOperation (query column last)) := by cbv
  have given : ∀ call ∈ [Builder.Call.source "\x7ba\x7d"], call.Printable :=
    List.forall_mem_singleton.2 (.of_parse parsed floatFree)
  obtain ⟨alike, _, entries⟩ := Document.Derived.canonicalKey_eq_canonicalKey (.parsed otherParsed)
    (.parsed parsed) otherFloatFree floatFree List.mem_cons_self List.mem_cons_self
    (reduces _ _) (reduces _ _)
  have known : (Document.ofOperation wide).canonicalKey ∈ manifest.keys := by
    have key : (Document.ofOperation wide).canonicalKey = "\x7b\n  a\n\x7d\n" := by cbv
    have keys : (Builder.run [] [.source "\x7ba\x7d"]).manifest.keys = ["\x7b\n  a\n\x7d\n"] := by
      cbv
    rw [key]
    exact keys ▸ List.mem_singleton_self _
  exact ⟨(alike.2 rfl).symm, entries 0 [.source "\x7ba\x7d"] given known⟩

/-- Two subscriptions that differ in a variable, which neither key shows. -/
theorem GraphQL.Document.canonicalKey_eq_of_hidden_variable :
    let subscription (column : Nat) (variableDefinitions : List Variable) : Operation :=
      ⟨some ⟨⟨1, 1⟩, .subscription, none, variableDefinitions, []⟩, ⟨⟨1, column⟩, ⟨1, column + 2⟩⟩,
        [.field ⟨⟨1, column + 1⟩, none, "a", [], []⟩ ⟨⟨1, column + 1⟩, ⟨1, column + 1⟩⟩ []]⟩
    let given := subscription 19 [⟨⟨1, 14⟩, "a", .named "B", none⟩]
    let other := subscription 13 []
    Document.parse "subscription($a:B)\x7ba\x7d" = .ok (.ofOperation given) ∧
      Document.parse "subscription\x7ba\x7d" = .ok (.ofOperation other) ∧
      (Document.ofOperation given).FloatFree ∧ (Document.ofOperation other).FloatFree ∧
      (Document.ofOperation given).reduce given = .ok (.ofOperation given) ∧
      (Document.ofOperation other).reduce other = .ok (.ofOperation other) ∧
      (Document.ofOperation given).canonicalKey = (Document.ofOperation other).canonicalKey ∧
      (Document.ofOperation given).erase ≠ (Document.ofOperation other).erase := by
  intro subscription given other
  refine ⟨by cbv, by cbv, ?_, ?_, by cbv, by cbv, by cbv, ?_⟩
  · simp only [given, subscription]
    decide
  · simp only [other, subscription]
    decide
  · intro same
    cases same

end PersistedDocuments
