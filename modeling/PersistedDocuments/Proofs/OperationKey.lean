import Mathlib
import PersistedDocuments.Proofs.FixedPoints
import PersistedDocuments.Proofs.SelfContained

/-!
# The key of an operation alone

The key of an operation without its fragments is the head of the key that it has with them: a
document is printed definition by definition, and of a reduction the operation is the first one. A
reduction holds fragments exactly if something is spread in its operation, so the two keys are equal
only for operations that spread nothing, and only these are found under the key that they have alone.
-/

namespace PersistedDocuments

open GraphQL

namespace GraphQL.Document

variable {document reduced : Document} {operation : Operation}

/-! ## Reductions without fragments -/

/-- An operation that spreads nothing is all that is left of a document. -/
theorem reduce_of_not_spreads (spreadsNothing : ∀ name, ¬operation.selectionSet.Spreads name) :
    document.reduce operation = .ok (ofOperation operation) := by
  have nothing : operation.selectionSet.spreads = [] := by
    rw [List.eq_nil_iff_forall_not_mem]
    intro name spread
    exact spreadsNothing name (SelectionSet.mem_spreads.1 spread)
  have keptNothing : document.kept [] = [] := by simp [kept, Fragment.firsts]
  rw [reduce_eq, reachable, nothing, visit_nil]
  simp [Except.map, keptNothing, ofOperation]

/-- A reduction is the operation alone exactly if this spreads nothing. -/
theorem eq_ofOperation_iff (reduces : document.reduce operation = .ok reduced) :
    reduced = ofOperation operation ↔ ∀ name, ¬operation.selectionSet.Spreads name := by
  constructor
  · rintro rfl name inside
    -- the operation alone defines nothing, but as a reduction it defines what it needs
    rcases reduce_eq_ok.1 (reduce_of_reduce reduces) with ⟨names, walked, _⟩
    exact absurd ((needs_of_reachable walked).2 name (.spread inside)) List.not_mem_nil
  · intro spreadsNothing
    rw [reduce_of_not_spreads spreadsNothing] at reduces
    exact (Except.ok.inj reduces).symm

/-! ## What is printed first -/

/-- The printed form of a document begins with that of its first definition. -/
theorem chars_singleton_isPrefix (first : Definition) (rest : List Definition) :
    chars ⟨[first]⟩ <+: chars ⟨first :: rest⟩ := by
  cases rest with
  | nil => exact List.prefix_rfl
  | cons second others => simp [chars]

/-- Every further definition shows in the printed form. -/
theorem chars_singleton_eq_iff (first : Definition) (rest : List Definition) :
    chars ⟨[first]⟩ = chars ⟨first :: rest⟩ ↔ rest = [] := by
  cases rest with
  | nil => exact iff_of_true rfl rfl
  | cons second others => simp [chars]

/-- The printed form of a reduction begins with that of its operation, and goes on exactly if this
spreads something. -/
theorem print_ofOperation_of_reduce (reduces : document.reduce operation = .ok reduced) :
    (ofOperation operation).print.toList <+: reduced.print.toList ∧
      ((ofOperation operation).print = reduced.print ↔
        ∀ name, ¬operation.selectionSet.Spreads name) := by
  rw [← eq_ofOperation_iff reduces]
  rcases reduce_eq_ok.1 reduces with ⟨names, _, rfl⟩
  rw [print, print, String.toList_ofList, String.toList_ofList, String.ofList_inj]
  refine ⟨chars_singleton_isPrefix _ _, ?_⟩
  rw [ofOperation, chars_singleton_eq_iff]
  simp

/-! ## What is printed as an operation alone -/

theorem Fits.ofOperation (fits : document.Fits) (present : operation ∈ document.operations) :
    (ofOperation operation).Fits where
  nonempty := List.cons_ne_nil _ _
  each := List.forall_mem_singleton.2 (fits.each _ ((mem_operations document).1 present))

theorem FloatFree.ofOperation (floatFree : document.FloatFree)
    (present : operation ∈ document.operations) : (ofOperation operation).FloatFree := by
  intro x float
  rcases List.mem_flatMap.1 float with ⟨definition, only, float⟩
  cases List.mem_singleton.1 only
  exact floatFree x (List.mem_flatMap.2 ⟨_, (mem_operations document).1 present, float⟩)

end GraphQL.Document

theorem Rewriting.spreads_iff (rewriting : Rewriting) {operation : Operation} {name : String} :
    (rewriting.operation operation).selectionSet.Spreads name ↔
      operation.selectionSet.Spreads name := by
  rw [← SelectionSet.mem_spreads, rewriting.spreads_operation, SelectionSet.mem_spreads]

/-- What the printed form of a document tells is a change of its definitions, one by one. -/
theorem GraphQL.Document.shown_eq_run (document : Document) :
    document.shown = ((Rewriting.written fun _ => exemplar).andThen .erase).run document := by
  rw [Rewriting.run_andThen, Rewriting.run_written, Rewriting.run_erase, shown]

/-- A reduction that is printed as an operation alone is printed as one that spreads nothing. -/
theorem GraphQL.Document.not_spreads_of_print_eq {document stored : Document}
    {operation original : Operation} (reduces : document.reduce original = .ok stored)
    (fits : stored.Fits) (floatFree : stored.FloatFree) (aloneFits : (ofOperation operation).Fits)
    (aloneFloatFree : (ofOperation operation).FloatFree)
    (same : stored.print = (ofOperation operation).print) :
    ∀ name, ¬operation.selectionSet.Spreads name := by
  -- what is shown of the reduction is its own reduction again, and consists of one operation
  have shown := (chars_eq_chars fits aloneFits floatFree aloneFloatFree).1 (String.ofList_inj.1 same)
  rw [shown_eq_run, shown_eq_run] at shown
  generalize (Rewriting.written fun _ => exemplar).andThen .erase = rewriting at shown
  have again := rewriting.reduce_run_of_reduce (Document.reduce_of_reduce reduces)
  have only := rewriting.operations_run stored
  rw [operations_of_reduce reduces, shown] at only
  have sameOperation : rewriting.operation operation = rewriting.operation original :=
    (List.cons.inj only).1
  rw [shown, ← sameOperation] at again
  intro name inside
  exact (eq_ofOperation_iff again).1 rfl name (rewriting.spreads_iff.2 inside)

/-! ## The two keys -/

namespace Pipeline

variable {pipeline : Pipeline} {rewriting : Rewriting} {document reduced : Document}
variable {operation : Operation} {reductions : List Document} {i : Nat}
variable (runs : ∀ document, pipeline.run document = .ok (rewriting.run document))

include runs

theorem operationKey_of_runs (operation : Operation) :
    pipeline.operationKey operation =
      .ok (Document.ofOperation (rewriting.operation operation)).print := by
  rw [operationKey, runs]
  rfl

theorem documentKey_ofOperation (operation : Operation) :
    pipeline.documentKey (.ofOperation operation) =
      .ok (Document.ofOperation (rewriting.operation operation)).print := by
  rw [documentKey_of_runs runs, Document.canonicalKey, Document.sorted_eq_self]
  · rfl
  · exact List.pairwise_singleton _ _

theorem documentKey_of_reduce (reduces : document.reduce operation = .ok reduced) :
    pipeline.documentKey reduced = .ok (rewriting.run reduced).print := by
  rw [documentKey_of_runs runs,
    Document.canonicalKey_of_reduce (rewriting.reduce_run_of_reduce reduces)]

/-- An extraction gives for an operation what the pipeline makes of its reduction. -/
theorem getElem?_reductions (given : pipeline.reductions document = .ok reductions)
    (place : document.operations[i]? = some operation)
    (reduces : document.reduce operation = .ok reduced) :
    reductions[i]? = some (rewriting.run reduced) := by
  rw [reductions_of_runs runs, map_eq_ok] at given
  rcases given with ⟨originals, each, rfl⟩
  rcases exists_getElem?_of_forall₂ (mapM_eq_ok.1 each) place with ⟨original, among, again⟩
  rw [List.getElem?_map, among, Except.ok.inj (again.symm.trans reduces)]
  rfl

end Pipeline

/-! ## Looking up the key of an operation alone -/

/-- A builder for queries that come from texts without floats has no entry under the key that an
operation with spreads has alone. -/
theorem Builder.not_spreads_of_mem_keys {n : Nat} {calls : List Call}
    (printable : ∀ call ∈ calls, call.Printable) {document : Document} {operation : Operation}
    (derived : document.Derived) (floatFree : document.FloatFree)
    (present : operation ∈ document.operations)
    (known : (Document.ofOperation operation).print ∈
      (run (List.replicate n .addTypename) calls).manifest.keys) :
    ∀ name, ¬operation.selectionSet.Spreads name := by
  rcases (sound_run _ calls).lookup_of_mem_keys known with ⟨entry, member, _, _, printed⟩
  have ⟨entryDerived, entryFloatFree⟩ := (printable_run n printable).entries entry member
  rcases exists_reduce_of_run member with ⟨_, _, _, _, _, _, _, _, reduces⟩
  exact Document.not_spreads_of_print_eq reduces entryDerived.fits entryFloatFree
    (derived.fits.ofOperation present) (floatFree.ofOperation present) printed

/-- The key of an operation alone is the key of the document that consists of it, and the beginning
of the key of its reduction. The two keys are equal exactly if the operation spreads nothing, and
exactly then the one that it has alone finds the entry that an extraction keeps for the operation.
Among queries that come from texts without floats it finds no other entry either. -/
theorem Pipeline.operationKey_isPrefix (n : Nat) {document reduced : Document}
    {operation : Operation} (reduces : document.reduce operation = .ok reduced) :
    let pipeline : Pipeline := List.replicate n .addTypename
    ∃ alone whole : String,
      pipeline.operationKey operation = .ok alone ∧
      pipeline.documentKey (.ofOperation operation) = .ok alone ∧
      pipeline.documentKey reduced = .ok whole ∧
      alone.toList <+: whole.toList ∧
      (alone = whole ↔ ∀ name, ¬operation.selectionSet.Spreads name) ∧
      ∀ (calls : List Builder.Call) (i : Nat),
        .document document ∈ calls → document.operations[i]? = some operation →
        let manifest := (Builder.run pipeline calls).manifest
        (∀ reductions, pipeline.reductions document = .ok reductions →
          ∃ extracted entry, reductions[i]? = some extracted ∧ extracted.canonicalKey = whole ∧
            manifest.lookup whole = .ok entry ∧ entry.document.print = whole ∧
            (manifest.lookup alone = .ok entry ↔
              ∀ name, ¬operation.selectionSet.Spreads name)) ∧
        ((∀ call ∈ calls, call.Printable) → (∃ name, operation.selectionSet.Spreads name) →
          manifest.lookup alone = .error .unknownKey) := by
  intro pipeline
  rcases Pipeline.exists_rewriting_replicate n with ⟨rewriting, runs⟩
  have transformedReduces := rewriting.reduce_run_of_reduce reduces
  obtain ⟨head, equal⟩ := Document.print_ofOperation_of_reduce transformedReduces
  simp only [rewriting.spreads_iff] at equal
  refine ⟨_, _, operationKey_of_runs runs operation, documentKey_ofOperation runs operation,
    documentKey_of_reduce runs reduces, head, equal, ?_⟩
  intro calls i made place manifest
  constructor
  · intro reductions given
    have extracted := getElem?_reductions runs given place reduces
    rcases Builder.lookup_of_mem_reductions made given (List.mem_of_getElem? extracted) with
      ⟨entry, found, sameKey, printed⟩
    have key := Document.canonicalKey_of_reduce transformedReduces
    rw [key] at found sameKey printed
    refine ⟨_, entry, extracted, key, found, printed, ?_⟩
    rw [← equal]
    constructor
    · intro foundAlone
      exact (Manifest.mem_of_lookup foundAlone).2.symm.trans sameKey
    · intro same
      rw [same]
      exact found
  · intro printable spreads
    apply Manifest.lookup_of_not_mem_keys
    intro known
    obtain ⟨derived, floatFree⟩ := printable _ made
    obtain ⟨transformedDerived, transformedFloatFree⟩ :=
      Pipeline.derived_of_run derived floatFree (runs document)
    have among : rewriting.operation operation ∈ (rewriting.run document).operations := by
      rw [rewriting.operations_run]
      exact List.mem_map_of_mem (List.mem_of_getElem? place)
    have spreadsNothing := Builder.not_spreads_of_mem_keys printable transformedDerived
      transformedFloatFree among known
    rcases spreads with ⟨name, inside⟩
    exact spreadsNothing name (rewriting.spreads_iff.2 inside)

/-- A query that spreads a fragment: the key that it has alone is the first paragraph of the key
under which it is kept, and finds nothing. -/
theorem Pipeline.operationKey_isPrefix_of_fragment :
    let field (column : Nat) (name : String) : Selection :=
      .field ⟨⟨1, column⟩, none, name, [], []⟩ ⟨⟨1, column⟩, ⟨1, column⟩⟩ []
    let query : Operation := ⟨none, ⟨⟨1, 1⟩, ⟨1, 6⟩⟩, [.spread ⟨1, 2⟩ "f" []]⟩
    let fragment (items : Selections) : Fragment :=
      ⟨⟨1, 7⟩, "f", "T", [], ⟨⟨1, 22⟩, ⟨1, 27⟩⟩,
        [.field ⟨⟨1, 23⟩, none, "a", [], []⟩ ⟨⟨1, 24⟩, ⟨1, 26⟩⟩ items]⟩
    let given : Document := ⟨[.operation query, .fragment (fragment [field 25 "b"])]⟩
    let stored : Document :=
      ⟨[.operation query, .fragment (fragment [field 25 "b", field 26 "__typename"])]⟩
    let alone := "\x7b\n  ...f\n\x7d\n"
    let whole :=
      alone ++ "\nfragment f on T \x7b\n  a \x7b\n    b\n    __typename\n  \x7d\n\x7d\n"
    let manifest := (Builder.run [.addTypename] [.document given]).manifest
    given.reduce query = .ok given ∧ stored.print = whole ∧
    Pipeline.operationKey [.addTypename] query = .ok alone ∧
    Pipeline.documentKey [.addTypename] given = .ok whole ∧
    alone.toList <+: whole.toList ∧
    (∃ entry, manifest.lookup whole = .ok entry ∧ entry.document.print = whole) ∧
    manifest.lookup alone = .error .unknownKey := by
  intro field query fragment given stored alone whole manifest
  have parsed : Document.parse "\x7b...f\x7dfragment f on T\x7ba\x7bb\x7d\x7d" = .ok given := by cbv
  have reduces : given.reduce query = .ok given := by cbv
  have floatFree : given.FloatFree := by
    simp only [given, query, fragment, field]
    decide
  have printable : ∀ call ∈ [Builder.Call.document given], call.Printable :=
    List.forall_mem_singleton.2 ⟨.parsed parsed, floatFree⟩
  have key : Pipeline.operationKey [.addTypename] query = .ok alone := by cbv
  have collected : Pipeline.reductions [.addTypename] given = .ok [stored] := by cbv
  have printed : stored.print = whole := by
    simp only [stored, query, fragment, field, whole, alone]
    decide +kernel
  have storedKey : stored.canonicalKey = whole :=
    (Builder.canonicalKey_of_reductions collected stored List.mem_cons_self).trans printed
  rcases operationKey_isPrefix 1 reduces with ⟨_, _, aloneKey, _, wholeKey, head, _, lookups⟩
  cases aloneKey.symm.trans key
  obtain ⟨finds, misses⟩ := lookups [.document given] 0 List.mem_cons_self rfl
  rcases finds _ collected with ⟨_, entry, place, sameKey, found, printedKey, _⟩
  cases place
  cases sameKey.symm.trans storedKey
  exact ⟨reduces, printed, key, wholeKey, head, ⟨entry, found, printedKey⟩,
    misses printable ⟨"f", _, List.mem_cons_self, .spread⟩⟩

end PersistedDocuments
