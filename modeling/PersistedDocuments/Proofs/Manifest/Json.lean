import Mathlib
import PersistedDocuments.Manifest.Json
import PersistedDocuments.Proofs.GraphQL.RoundTrip
import PersistedDocuments.Proofs.Json.QueryId

/-!
# Manifests are read back

A manifest is written as JSON with its documents in printed form. Reading it gives the same keys and
identifiers in the same order, and the documents as far as they are written; so the documents are
the same, up to places, exactly if none of them hides variables.
-/

namespace PersistedDocuments

open GraphQL Json

/-- A document without floats in which every character of a string is written as it is or with a
letter behind a backslash, and in which no string has several lines. -/
structure GraphQL.Document.Plain (document : Document) : Prop where
  floatFree : document.FloatFree
  strings : ∀ indent text, .string indent text ∈ document.words →
    ∀ c ∈ text.toList, c = '\t' ∨ c = '\r' ∨ QuotedString.isPlain c = true

instance (document : Document) : Decidable document.Plain :=
  decidable_of_iff (document.FloatFree ∧ ∀ text ∈ document.words.filterMap Word.text?,
      text.toList.all (fun c => c = '\t' ∨ c = '\r' ∨ QuotedString.isPlain c = true) = true)
    (by
      simp only [Word.forall_text_iff, List.all_eq_true, decide_eq_true_eq]
      exact ⟨fun ⟨floatFree, strings⟩ => ⟨floatFree, strings⟩,
        fun plain => ⟨plain.floatFree, plain.strings⟩⟩)

/-- A plain document is read again as far as it is written. -/
theorem GraphQL.Document.Plain.parse_print {document : Document} (plain : document.Plain)
    (fits : document.Fits) :
    ∃ found, Document.parse document.print = .ok found ∧ found.erase = document.written.erase := by
  have kept : ∀ indent text, .string indent text ∈ document.written.words →
      rereadString? indent text = some text := fun indent text present =>
    rereadString?_eq_self (plain.strings indent text (Document.mem_words_written present)) indent
  have whole : ∀ indent text, .string indent text ∈ document.written.words →
      rereadString? indent text ≠ none := fun indent text present torn => by
    rw [kept indent text present] at torn
    cases torn
  rcases fits.parse_print plain.floatFree whole with ⟨found, parsed, same⟩
  refine ⟨found, parsed, same.trans (Document.erase_mapStrings_eq_erase fits.written ?_)⟩
  intro indent text present
  rw [rereadString, kept indent text present]
  rfl

namespace Json.Decoder

theorem once_none {α : Type} {item : Decoder α} {cs rest : List Char} {found : α}
    (read : item cs = .ok (found, rest)) : once none item (':' :: cs) = .ok (some found, rest) := by
  rw [once]
  change (symbol ':' >>= fun _ => some <$> item) _ = _
  rw [bind_eq (symbol_cons (by decide) cs)]
  change Except.map _ (item cs) = _
  rw [read]
  rfl

/-- The separators between members end numbers. -/
theorem ends_separator {c : Char} (separator : c = ',' ∨ c = '}') (tail : List Char) :
    Number.Ends (c :: tail) := by
  rintro _ ⟨⟩
  rcases separator with rfl | rfl <;> decide

end Json.Decoder

namespace RecordParts

variable {c : Char} {tail : List Char}

theorem member_id {id : QueryId} (fits : ∀ n, id = .number n → n < QueryId.limit) (depth : Nat)
    (document : Option Document) (separator : c = ',' ∨ c = '}') :
    member depth ⟨none, document⟩
        ((Quoted.encode "id".toList ++ ':' :: id.toJson.chars) ++ c :: tail) =
      .ok (⟨some id, document⟩, c :: tail) := by
  have value := QueryId.decoder_chars fits depth (Decoder.ends_separator separator tail)
  rw [List.append_assoc, List.cons_append, member, Decoder.bind_eq (Decoder.name_encode "id" _)]
  exact Decoder.bind_eq (Decoder.once_none value) _

theorem member_document {document found : Document}
    (parsed : Document.parse document.print = .ok found) (depth : Nat) (id : Option QueryId) :
    member depth ⟨id, none⟩ ((Quoted.encode "transformedQuery".toList ++
      ':' :: (Json.Value.string document.print).chars) ++ c :: tail) =
      .ok (⟨id, some found⟩, c :: tail) := by
  have value : document? ((Json.Value.string document.print).chars ++ c :: tail) =
      .ok (found, c :: tail) := by
    rw [Json.Value.chars, document?, Decoder.bind_eq (Decoder.text_encode document.print _), parsed]
    rfl
  rw [List.append_assoc, List.cons_append, member,
    Decoder.bind_eq (Decoder.name_encode "transformedQuery" _)]
  exact Decoder.bind_eq (Decoder.once_none value) _

end RecordParts

/-- The written form of an entry is read, with what its printed document stands for. -/
theorem Entry.decoder_chars {entry : Entry} (fits : ∀ n, entry.id = .number n → n < QueryId.limit)
    {found : Document} (parsed : Document.parse entry.document.print = .ok found) (depth : Nat)
    (rest : List Char) :
    Entry.decoder depth entry.key (entry.toJson.chars ++ rest) =
      .ok (⟨entry.key, entry.id, found⟩, rest) := by
  have folds : Decoder.Folds (RecordParts.member depth) ⟨none, none⟩
      (Json.Members.texts [("id", entry.id.toJson),
        ("transformedQuery", .string entry.document.print)]) ⟨some entry.id, some found⟩ := by
    have behind : Decoder.Folds (RecordParts.member depth) ⟨some entry.id, none⟩
        (Json.Members.texts [("transformedQuery", .string entry.document.print)])
        ⟨some entry.id, some found⟩ :=
      .cons ⟨_, rfl⟩ (fun _ _ _ => RecordParts.member_document parsed depth (some entry.id)) .nil
    exact .cons ⟨_, rfl⟩ (fun _ _ => RecordParts.member_id fits depth none) behind
  have read := Decoder.fold_of_folds folds rest
  rw [Entry.toJson, Json.Value.chars, List.append_assoc, List.cons_append, Entry.decoder,
    Decoder.bind_eq (Decoder.peek_cons (by decide) _)]
  change (Decoder.drop >>= fun _ => _) _ = _
  rw [Decoder.bind_eq (Decoder.drop_cons _ _), List.singleton_append, Decoder.bind_eq read]
  rfl

namespace Manifest

variable {manifest : Manifest}

theorem set_of_not_mem {entry : Entry} (fresh : entry.key ∉ manifest.keys) :
    manifest.set entry = manifest.push entry fresh := by
  rw [set, dif_neg fresh]

theorem member_of_entry {entry : Entry} (fits : ∀ n, entry.id = .number n → n < QueryId.limit)
    {found : Document} (parsed : Document.parse entry.document.print = .ok found)
    (fresh : entry.key ∉ manifest.keys) (rest : List Char) :
    manifest.member ((Quoted.encode entry.key.toList ++ ':' :: entry.toJson.chars) ++ rest) =
      .ok (manifest.push ⟨entry.key, entry.id, found⟩ fresh, rest) := by
  have read := Entry.decoder_chars fits parsed (Decoder.nestingLimit - 2) rest
  rw [List.append_assoc, List.cons_append, member,
    Decoder.bind_eq (Decoder.name_encode entry.key _),
    Decoder.bind_eq (Decoder.symbol_cons (by decide) _), Decoder.bind_eq read, ← set_of_not_mem]
  rfl

/-- An entry that is read back as far as its document is written. -/
structure Restores (entry found : Entry) : Prop where
  key : found.key = entry.key
  id : found.id = entry.id
  document : found.document.erase = entry.document.written.erase

theorem Restores.maps {entries others : List Entry} (each : List.Forall₂ Restores entries others) :
    others.map Entry.key = entries.map Entry.key ∧ others.map Entry.id = entries.map Entry.id ∧
      others.map (fun entry => entry.document.erase) =
        entries.map (fun entry => entry.document.written.erase) := by
  induction each with
  | nil => exact ⟨rfl, rfl, rfl⟩
  | cons first _ ih =>
      rcases ih with ⟨keys, ids, documents⟩
      simp only [List.map_cons, first.key, first.id, first.document, keys, ids, documents, and_self]

/-- The members of a manifest's object are read one after the other. -/
theorem folds_entries {entries : List Entry} (distinct : (entries.map Entry.key).Nodup)
    (fits : ∀ entry ∈ entries, ∀ n, entry.id = .number n → n < QueryId.limit)
    (parses : ∀ entry ∈ entries, ∃ found, Document.parse entry.document.print = .ok found ∧
      found.erase = entry.document.written.erase)
    (start : Manifest) (fresh : ∀ entry ∈ entries, entry.key ∉ start.keys) :
    ∃ found : Manifest,
      Decoder.Folds member start
        (Json.Members.texts (entries.map fun entry => (entry.key, entry.toJson))) found ∧
      ∃ added, found.entries = start.entries ++ added ∧ List.Forall₂ Restores entries added := by
  induction entries generalizing start with
  | nil => exact ⟨start, .nil, [], (List.append_nil _).symm, .nil⟩
  | cons entry rest ih =>
      have ⟨notLater, laterDistinct⟩ := List.nodup_cons.1 distinct
      have isFresh := fresh entry List.mem_cons_self
      rcases parses entry List.mem_cons_self with ⟨document, parsed, same⟩
      have laterFresh : ∀ other ∈ rest,
          other.key ∉ (start.push ⟨entry.key, entry.id, document⟩ isFresh).keys := by
        intro other later known
        simp only [keys, push, List.map_append, List.mem_append, List.map_cons, List.map_nil,
          List.mem_singleton] at known
        rcases known with old | new
        · exact fresh other (List.mem_cons_of_mem _ later) old
        · exact notLater (new ▸ List.mem_map_of_mem later)
      obtain ⟨found, folds, added, entries, restores⟩ := ih laterDistinct
        (fun other later => fits other (List.mem_cons_of_mem _ later))
        (fun other later => parses other (List.mem_cons_of_mem _ later)) _ laterFresh
      refine ⟨found, .cons ⟨_, rfl⟩ (fun c tail _ => ?_) folds,
        ⟨entry.key, entry.id, document⟩ :: added, ?_, .cons ⟨rfl, rfl, same⟩ restores⟩
      · exact member_of_entry (fits entry List.mem_cons_self) parsed isFresh (c :: tail)
      · rw [entries, push, List.append_assoc]
        rfl

/-- What is written for a manifest is read as a manifest that restores its entries. -/
theorem exists_read (fits : manifest.IdsFit)
    (parses : ∀ entry ∈ manifest.entries, ∃ found,
      Document.parse entry.document.print = .ok found ∧
        found.erase = entry.document.written.erase) :
    ∃ found, Manifest.read manifest.write = .ok found ∧
      List.Forall₂ Restores manifest.entries found.entries := by
  obtain ⟨found, folds, added, entries, restores⟩ := folds_entries
    manifest.distinct fits parses .empty fun _ _ => List.not_mem_nil
  refine ⟨found, ?_, entries ▸ restores⟩
  have read := Decoder.fold_of_folds folds []
  have whole : decoder manifest.write.toList = .ok (found, []) := by
    rw [write, Json.Value.write, String.toList_ofList, toJson, Json.Value.chars, decoder,
      List.cons_append, Decoder.bind_eq (Decoder.peek_cons (by decide) _)]
    exact read
  rw [Manifest.read, Decoder.run, whole]
  rfl

/-- Every manifest with documents that come from texts, without floats and with plain strings, is
read back: the keys and identifiers as they are, and the documents as far as they are written. They
are the same up to places exactly if none of them hides variables. -/
theorem read_write (fits : manifest.IdsFit)
    (derived : ∀ entry ∈ manifest.entries, entry.document.Derived)
    (plain : ∀ entry ∈ manifest.entries, entry.document.Plain) :
    ∃ found, Manifest.read manifest.write = .ok found ∧ found.keys = manifest.keys ∧
      found.entries.map Entry.id = manifest.entries.map Entry.id ∧
      found.entries.map (fun entry => entry.document.erase) =
        manifest.entries.map (fun entry => entry.document.written.erase) ∧
      (found.entries.map (fun entry => entry.document.erase) =
          manifest.entries.map (fun entry => entry.document.erase) ↔
        ∀ entry ∈ manifest.entries, ¬entry.document.HidesVariables) := by
  obtain ⟨found, read, restores⟩ := exists_read fits fun entry present =>
    (plain entry present).parse_print (derived entry present).fits
  have ⟨keys, ids, documents⟩ := Restores.maps restores
  refine ⟨found, read, keys, ids, documents, ?_⟩
  rw [documents, List.map_inj_left]
  constructor
  · intro same entry present
    exact entry.document.erase_written_eq_erase.1 (same entry present)
  · intro shown entry present
    exact entry.document.erase_written_eq_erase.2 (shown entry present)

/-- Two records of one query, with a tab in a string, under keys and identifiers that need
escapes. -/
theorem read_write_of_tab :
    let document : Document := .ofOperation ⟨none, ⟨⟨1, 1⟩, ⟨1, 11⟩⟩,
      [.field ⟨⟨1, 2⟩, none, "a", [("b", .string "\t")], []⟩ ⟨⟨1, 2⟩, ⟨1, 2⟩⟩ []]⟩
    let manifest : Manifest :=
      ⟨[⟨"\n", .text "\"", document⟩, ⟨"", .number 18446744073709551615, document⟩], by decide⟩
    ∃ found, Manifest.read manifest.write = .ok found ∧ found.keys = ["\n", ""] ∧
      found.entries.map Entry.id = [.text "\"", .number 18446744073709551615] ∧
      found.entries.map (fun entry => entry.document.erase) = [document.erase, document.erase] := by
  intro document manifest
  have parsed : Document.parse "\x7ba(b:\"\\t\")\x7d" = .ok document := by cbv
  have plain : document.Plain := by
    simp only [document]
    decide
  have each : ∀ entry ∈ manifest.entries, entry.document = document := by simp [manifest]
  have fits : manifest.IdsFit := by simp [IdsFit, manifest, QueryId.limit]
  obtain ⟨found, read, keys, ids, _, documents⟩ := manifest.read_write fits
    (fun entry present => (each entry present).symm ▸ .parsed parsed)
    (fun entry present => (each entry present).symm ▸ plain)
  refine ⟨found, read, keys, ids, documents.2 fun entry present hides => ?_⟩
  rw [each entry present] at hides
  rcases hides with ⟨operation, among, header, same, _⟩
  cases List.mem_singleton.1 among
  cases same

/-- A subscription without a name is read back without its variables. -/
theorem erase_read_ne_of_hidden_variable :
    let operation : Operation :=
      ⟨some ⟨⟨1, 1⟩, .subscription, none, [⟨⟨1, 14⟩, "a", .named "B", none⟩], []⟩,
        ⟨⟨1, 19⟩, ⟨1, 21⟩⟩, [.field ⟨⟨1, 20⟩, none, "a", [], []⟩ ⟨⟨1, 20⟩, ⟨1, 20⟩⟩ []]⟩
    let manifest : Manifest := ⟨[⟨"", .number 1, .ofOperation operation⟩], by decide⟩
    Document.parse "subscription($a:B)\x7ba\x7d" = .ok (.ofOperation operation) ∧
      (Document.ofOperation operation).Plain ∧
      ∃ found, Manifest.read manifest.write = .ok found ∧
        found.entries.map (fun entry => entry.document.erase) ≠
          manifest.entries.map (fun entry => entry.document.erase) := by
  intro operation manifest
  have parsed : Document.parse "subscription($a:B)\x7ba\x7d" = .ok (.ofOperation operation) := by
    cbv
  have plain : (Document.ofOperation operation).Plain := by
    simp only [operation]
    decide
  have fits : manifest.IdsFit := by
    intro entry present n same
    cases List.mem_singleton.1 present
    cases same
    decide
  obtain ⟨found, read, restores⟩ := exists_read fits fun entry present => by
    cases List.mem_singleton.1 present
    exact plain.parse_print (Document.fits_of_parse parsed)
  refine ⟨parsed, plain, found, read, ?_⟩
  rw [(Restores.maps restores).2.2]
  intro same
  cases same

end Manifest

end PersistedDocuments
