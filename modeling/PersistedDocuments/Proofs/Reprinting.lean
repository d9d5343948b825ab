import Mathlib
import PersistedDocuments.Proofs.Distinctness
import PersistedDocuments.Proofs.GraphQL.Settled
import PersistedDocuments.Proofs.Manifest.Collection

/-!
# Keys of printed documents

A printed document can be read exactly if every string that is written in it can. It need not have
the key of the document that was printed, since strings may come back changed. It has that key
exactly if every string that is written in the document is settled, however often type names are
added before the key is taken. The same holds for the texts under which manifests store their
documents.
-/

namespace PersistedDocuments

namespace GraphQL.Document

/-- Every string that is written in the document is printed again as it was. -/
def Settled (document : Document) : Prop :=
  ∀ indent text, .string indent text ∈ document.written.words → IsSettled text

/-- Every string that is written in the document can be read when it has been printed. -/
def Readable (document : Document) : Prop :=
  ∀ indent text, .string indent text ∈ document.written.words → IsReadable text

instance (document : Document) : Decidable document.Settled :=
  decidable_of_iff _ Word.forall_text_iff

instance (document : Document) : Decidable document.Readable :=
  decidable_of_iff _ Word.forall_text_iff

/-- The first document is what the printed form of the second reads as, up to places. -/
def Reprints (found document : Document) : Prop :=
  found.erase = (document.written.mapStrings rereadString).erase

variable {found document : Document}

theorem Settled.readable (settled : document.Settled) : document.Readable :=
  fun indent text present => (settled indent text present).isReadable

/-! ## Reading what has been printed -/

theorem Fits.exists_reprints (fits : document.Fits) (floatFree : document.FloatFree)
    (readable : document.Readable) :
    ∃ found, Document.parse document.print = .ok found ∧ found.Reprints document :=
  fits.parse_print floatFree fun indent text present torn =>
    rereadString?_eq_none_iff.1 torn (readable indent text present)

theorem Fits.parse_print_of_not_readable (fits : document.Fits) (floatFree : document.FloatFree)
    (unreadable : ¬document.Readable) : Document.parse document.print = .error .tornString := by
  simp only [Readable, not_forall] at unreadable
  rcases unreadable with ⟨indent, text, present, torn⟩
  exact fits.parse_print_of_torn floatFree present (rereadString?_eq_none_iff.2 torn)

/-! ## What is done to both documents -/

theorem Reprints.addTypename (reprints : found.Reprints document) :
    found.addTypename.Reprints document.addTypename := by
  rw [Reprints, erase_addTypename, reprints, written_addTypename, mapStrings_addTypename,
    erase_addTypename]

theorem Reprints.sorted (reprints : found.Reprints document) :
    found.sorted.Reprints document.sorted := by
  rw [Reprints, ← sorted_erase, reprints, ← sorted_written, ← sorted_mapStrings, sorted_erase]

theorem settled_addTypename : document.addTypename.Settled ↔ document.Settled := by
  simp [Settled, written_addTypename, mem_words_addTypename]

theorem settled_sorted : document.sorted.Settled ↔ document.Settled := by
  simp [Settled, ← sorted_written, mem_words_sorted]

theorem FloatFree.sorted (floatFree : document.FloatFree) : document.sorted.FloatFree :=
  fun x float => floatFree x (document.mem_words_sorted.1 float)

theorem FloatFree.mapStrings (floatFree : document.FloatFree) (change : Nat → String → String) :
    (document.mapStrings change).FloatFree := by
  intro x float
  rw [words_mapStrings] at float
  rcases List.mem_map.1 float with ⟨word, present, same⟩
  cases word with
  | float y =>
      cases same
      exact floatFree x present
  | symbol _ | name _ | int _ | string _ _ => cases same

/-! ## Printing again -/

/-- A change of strings does not show exactly if none of the strings in the document is printed
differently. -/
theorem Fits.chars_mapStrings_iff (fits : document.Fits) (floatFree : document.FloatFree)
    {change : Nat → String → String} :
    (document.written.mapStrings change).chars = document.chars ↔
      ∀ indent text, .string indent text ∈ document.written.words →
        stringChars indent (change indent text) = stringChars indent text := by
  have legible := fits.written.legible floatFree.written
  have changedLegible := fits.written.mapStrings.legible (floatFree.written.mapStrings change)
  constructor
  · intro same indent text present
    have laid : Laid document.chars (document.written.mapStrings change).words := by
      rw [← same]
      apply Document.laid
      rw [← written_mapStrings]
      exact not_hidesVariables_written _
    have original : Laid document.chars document.written.words := by
      rw [← chars_written]
      exact Document.laid (not_hidesVariables_written _)
    have words := laid.unique original changedLegible legible
    rw [words_mapStrings, List.map_map] at words
    exact congrArg Prod.snd (List.map_inj_left.1 words _ present)
  · intro same
    -- The words of the two documents differ, but not when every string is replaced by its exemplar.
    have exemplars : (document.written.mapStrings fun indent text =>
        exemplar (change indent text)).erase =
        (document.written.mapStrings fun _ => exemplar).erase :=
      fits.written.erase_mapStrings_congr fun indent text present =>
        exemplar_eq_exemplar.2 (same indent text present)
    calc (document.written.mapStrings change).chars
      _ = ((document.written.mapStrings change).mapStrings fun _ => exemplar).chars :=
          (chars_mapStrings stringChars_exemplar _).symm
      _ = (document.written.mapStrings fun _ => exemplar).chars := by
          rw [mapStrings_mapStrings, ← chars_erase, exemplars, chars_erase]
      _ = document.chars := by rw [chars_mapStrings stringChars_exemplar, chars_written]

/-- What a printed document reads as is printed like it exactly if its strings are settled. -/
theorem Reprints.print_eq_iff (reprints : found.Reprints document) (fits : document.Fits)
    (floatFree : document.FloatFree) : found.print = document.print ↔ document.Settled := by
  have chars : found.chars = (document.written.mapStrings rereadString).chars := by
    rw [← chars_erase found, reprints, chars_erase]
  rw [print, print, String.ofList_inj, chars, fits.chars_mapStrings_iff floatFree]
  simp only [stringChars_rereadString, Settled]

theorem Reprints.canonicalKey_eq_iff (reprints : found.Reprints document) (fits : document.Fits)
    (floatFree : document.FloatFree) :
    found.canonicalKey = document.canonicalKey ↔ document.Settled := by
  rw [canonicalKey, canonicalKey, reprints.sorted.print_eq_iff fits.sorted floatFree.sorted,
    settled_sorted]

/-- Type names do not change whether the keys are equal. -/
theorem Reprints.documentKey_eq_iff (reprints : found.Reprints document) (fits : document.Fits)
    (floatFree : document.FloatFree) (n : Nat) :
    Pipeline.documentKey (List.replicate n .addTypename) found =
        Pipeline.documentKey (List.replicate n .addTypename) document ↔
      document.Settled := by
  induction n generalizing found document with
  | zero =>
      rw [← reprints.canonicalKey_eq_iff fits floatFree]
      exact Iff.of_eq (Except.ok.injEq found.canonicalKey document.canonicalKey)
  | succ n ih =>
      rw [← settled_addTypename, ← ih reprints.addTypename fits.addTypename floatFree.addTypename]
      rfl

/-- If reading what has been printed keeps a property exactly of the documents whose strings are
settled, the property is kept exactly if they are; the others may also not be read at all. -/
theorem Fits.exists_keeps_iff (fits : document.Fits) (floatFree : document.FloatFree)
    {keeps : Document → Prop}
    (each : ∀ found : Document, found.Reprints document → (keeps found ↔ document.Settled)) :
    (∃ found, Document.parse document.print = .ok found ∧ keeps found) ↔ document.Settled := by
  by_cases readable : document.Readable
  · rcases fits.exists_reprints floatFree readable with ⟨found, read, reprints⟩
    rw [read, ← each found reprints]
    constructor
    · rintro ⟨_, ⟨⟩, kept⟩
      exact kept
    · exact fun kept => ⟨found, rfl, kept⟩
  · rw [fits.parse_print_of_not_readable floatFree readable]
    refine iff_of_false ?_ fun settled => readable settled.readable
    rintro ⟨_, ⟨⟩, _⟩

end GraphQL.Document

open GraphQL

/-- The printed form of a document that a text stands for is read exactly if its strings can be;
otherwise the reader breaks down. It is read as a document with the same key exactly if its strings
are settled. So it is with the stored text of every entry of a manifest that has been built of such
documents. -/
theorem GraphQL.Document.documentKey_print (n : Nat) :
    (∀ text document, Document.parse text = .ok document → document.FloatFree →
      (document.Readable → ∃ found, Document.parse document.print = .ok found) ∧
      (¬document.Readable → Document.parse document.print = .error .tornString) ∧
      ((∃ found, Document.parse document.print = .ok found ∧
          Pipeline.documentKey (List.replicate n .addTypename) found =
            Pipeline.documentKey (List.replicate n .addTypename) document) ↔
        document.Settled)) ∧
    ∀ calls : List Builder.Call, (∀ call ∈ calls, call.Printable) →
      ∀ entry ∈ (Builder.run (List.replicate n .addTypename) calls).manifest.entries,
        (entry.document.Readable → ∃ found, Document.parse entry.document.print = .ok found) ∧
        (¬entry.document.Readable → Document.parse entry.document.print = .error .tornString) ∧
        ((∃ found, Document.parse entry.document.print = .ok found ∧
            found.canonicalKey = entry.key) ↔
          entry.document.Settled) := by
  constructor
  · intro text document parsed floatFree
    have fits := (Document.Derived.parsed parsed).fits
    exact ⟨fun readable => (fits.exists_reprints floatFree readable).imp fun _ => And.left,
      fits.parse_print_of_not_readable floatFree,
      fits.exists_keeps_iff floatFree fun found reprints =>
        reprints.documentKey_eq_iff fits floatFree n⟩
  · intro calls given entry present
    have ⟨derived, floatFree⟩ := (Builder.printable_run n given).entries entry present
    have keyed := (Builder.sound_run (List.replicate n .addTypename) calls).keyed entry present
    refine ⟨fun readable => (derived.fits.exists_reprints floatFree readable).imp fun _ => And.left,
      derived.fits.parse_print_of_not_readable floatFree, ?_⟩
    rw [← keyed]
    exact derived.fits.exists_keeps_iff floatFree fun found reprints =>
      reprints.canonicalKey_eq_iff derived.fits floatFree

/-- A string of two lines is printed as a block string and keeps its key, also in a manifest. One in
which the margin ends inside an ideographic space is printed as a torn string. -/
theorem GraphQL.Document.documentKey_print_of_lines :
    let query (last : Nat) (text : String) : Document := .ofOperation ⟨none, ⟨⟨1, 1⟩, ⟨1, last⟩⟩,
      [.field ⟨⟨1, 2⟩, none, "a", [("b", .string text)], []⟩ ⟨⟨1, 2⟩, ⟨1, 2⟩⟩ []]⟩
    let given := query 14 "c\n d"
    let torn := query 20 " c\n\u3000d"
    let source := "\x7ba(b:\"c\\n d\")\x7d"
    (∃ found, Document.parse given.print = .ok found ∧
      Pipeline.documentKey [.addTypename] found = Pipeline.documentKey [.addTypename] given) ∧
    (∃ entry, (Builder.run [.addTypename] [.source source]).manifest.entries = [entry] ∧
      ∃ found, Document.parse entry.document.print = .ok found ∧
        found.canonicalKey = entry.key) ∧
    Document.parse "\x7ba(b:\" c\\n\\u3000d\")\x7d" = .ok torn ∧
      Document.parse torn.print = .error .tornString := by
  intro query given torn source
  have parsed : Document.parse source = .ok given := by cbv
  have tornParsed : Document.parse "\x7ba(b:\" c\\n\\u3000d\")\x7d" = .ok torn := by cbv
  have floatFree : given.FloatFree := by
    simp only [given, query]
    decide
  have tornFloatFree : torn.FloatFree := by
    simp only [torn, query]
    decide
  have settled : given.Settled := by
    simp only [given, query]
    decide +kernel
  have unreadable : ¬torn.Readable := by
    simp only [torn, query]
    decide +kernel
  have printable : ∀ call ∈ [Builder.Call.source source], call.Printable :=
    List.forall_mem_singleton.2 (.of_parse parsed floatFree)
  have keys := documentKey_print 1
  simp only [List.replicate_one] at keys
  rcases keys with ⟨documents, entries⟩
  refine ⟨?_, ?_, tornParsed, ?_⟩
  · exact (documents source given parsed floatFree).2.2.2 settled
  · have reduced : Pipeline.reductions [.addTypename] given = .ok [given] := by cbv
    have held : (Builder.run [.addTypename] [.source source]).manifest.entries =
        [⟨given.canonicalKey, .number 1, given⟩] :=
      Builder.entries_run_singleton
        ((Builder.Call.reductions_of_parse (by cbv) parsed).trans reduced)
    have each := entries [.source source] printable
    rw [held, List.forall_mem_singleton] at each
    exact ⟨_, held, each.2.2.2 settled⟩
  · exact (documents _ torn tornParsed tornFloatFree).2.1 unreadable

/-- A form feed is written by its code in decimal digits and read as the character with these
hexadecimal ones, in a document and in the text that a manifest stores for it. -/
theorem GraphQL.Document.documentKey_ne_of_formFeed :
    let query (field last : Pos) (text : String) : Document :=
      .ofOperation ⟨none, ⟨⟨1, 1⟩, last⟩,
        [.field ⟨field, none, "a", [("b", .string text)], []⟩ ⟨field, field⟩ []]⟩
    let given := query ⟨1, 2⟩ ⟨1, 11⟩ "\x0c"
    let found := query ⟨2, 3⟩ ⟨3, 1⟩ "\x12"
    let source := "\x7ba(b:\"\\f\")\x7d"
    Document.parse source = .ok given ∧ given.FloatFree ∧
      Document.parse given.print = .ok found ∧
      Pipeline.documentKey [] found ≠ Pipeline.documentKey [] given ∧
      (Builder.run [] [.source source]).manifest.entries =
        [⟨given.canonicalKey, .number 1, given⟩] ∧
      found.canonicalKey ≠ given.canonicalKey := by
  intro query given found source
  have key : given.canonicalKey = "\x7b\n  a(b: \"\\u0012\")\n\x7d\n" := by cbv
  have foundKey : found.canonicalKey = "\x7b\n  a(b: \"\\u0018\")\n\x7d\n" := by cbv
  have different : found.canonicalKey ≠ given.canonicalKey := by
    rw [key, foundKey]
    decide
  have parsed : Document.parse source = .ok given := by cbv
  refine ⟨parsed, ?_, ?_, fun same => different (Except.ok.inj same), ?_, different⟩
  · simp only [given, query]
    decide
  · have printed : given.print = "\x7b\n  a(b: \"\\u0012\")\n\x7d\n" := by cbv
    rw [printed]
    cbv
  · have reduced : Pipeline.reductions [] given = .ok [given] := by cbv
    exact Builder.entries_run_singleton
      ((Builder.Call.reductions_of_parse (by cbv) parsed).trans reduced)

end PersistedDocuments
