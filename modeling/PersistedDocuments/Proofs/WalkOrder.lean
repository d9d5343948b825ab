import Mathlib
import PersistedDocuments.Proofs.Embedded.Passages
import PersistedDocuments.Proofs.Lookup
import PersistedDocuments.Proofs.Outcome
import PersistedDocuments.Proofs.Text.ByteOrder
import PersistedDocuments.Proofs.Walk

/-!
# The order of a walk

A walk sorts the entries of one directory after the other. All in all it comes upon the files of a
tree in the order of the names on the way to them, compared one after the other by their bytes. So
the files that are read, and the text that is made of them, depend on nothing but the files, in
whatever order directories list their entries.
-/

namespace PersistedDocuments

/-- A file in a tree, with the names that lead to it. -/
structure Leaf where
  names : List String
  content : ByteArray

namespace Leaf

/-- The file below a path that leads to the tree. -/
def file (path : String) (leaf : Leaf) : File := ⟨leaf.names.foldl joinPath path, leaf.content⟩

/-- The file in a tree that has its tree for an entry of a name. -/
def below (name : String) (leaf : Leaf) : Leaf := ⟨name :: leaf.names, leaf.content⟩

/-- Files stand in the order of their names, which compare one after the other by their bytes. -/
def Precedes (a b : Leaf) : Prop := a.names.map Text.bytes < b.names.map Text.bytes

variable {a b : Leaf} {name other : String}

instance : Std.Irrefl Precedes := ⟨fun _ => List.lt_irrefl _⟩

instance : Std.Antisymm Precedes := ⟨fun _ _ less more => absurd more (List.lt_asymm less)⟩

theorem precedes_below : (a.below name).Precedes (b.below name) ↔ a.Precedes b :=
  List.cons_lt_cons_self

theorem precedes_of_lt (less : name < other) : (a.below name).Precedes (b.below other) :=
  List.cons_lt_cons_iff.2 (.inl (Text.bytes_lt_bytes_iff.2 less))

end Leaf

namespace Node

mutual
/-- The files at and below a node, in the order of a walk. -/
def leaves : Node → List Leaf
  | .file content => [⟨[], content⟩]
  | .directory entries =>
    ((entryLeaves entries).mergeSort byName).flatMap fun part => part.2.map (Leaf.below part.1)

/-- The names of a directory's entries, each with the files at and below it. -/
def entryLeaves : List (String × Node) → List (String × List Leaf)
  | [] => []
  | (name, node) :: rest => (name, node.leaves) :: entryLeaves rest
end

/-- A tree to which a path leads. Its directories can be opened, and none of them has two entries of
one name. -/
inductive Opens : String → Node → Prop
  | file (path : String) (content : ByteArray) : Opens path (.file content)
  | directory {path : String} {entries : List (String × Node)} (short : isPath path = true)
      (distinct : (entries.map Prod.fst).Nodup)
      (inside : ∀ entry ∈ entries, Opens (joinPath path entry.1) entry.2) :
      Opens path (.directory entries)

variable {path : String} {entries : List (String × Node)} {node : Node}

theorem leaves_directory (entries : List (String × Node)) :
    (Node.directory entries).leaves =
      (entries.mergeSort byName).flatMap fun entry => entry.2.leaves.map (Leaf.below entry.1) := by
  have parts : entryLeaves entries = entries.map fun entry => (entry.1, entry.2.leaves) := by
    induction entries with
    | nil => rfl
    | cons entry rest ih => rw [entryLeaves, ih, List.map_cons]
  rw [leaves, parts, mergeSort_byName_map, List.flatMap_map]

/-- The entries of a directory in the order of a walk come in the order of their names. -/
theorem pairwise_mergeSort_byName (distinct : (entries.map Prod.fst).Nodup) :
    (entries.mergeSort byName).Pairwise fun a b => a.1 < b.1 := by
  have sorted := List.pairwise_mergeSort byName_trans byName_total entries
  have apart : (entries.mergeSort byName).Pairwise fun a b => a.1 ≠ b.1 := by
    rw [← List.pairwise_map (f := Prod.fst) (R := (· ≠ ·)), ← List.nodup_iff_pairwise_ne]
    exact ((List.mergeSort_perm entries byName).map Prod.fst).nodup_iff.2 distinct
  refine (sorted.and apart).imp ?_
  rintro a b ⟨least, different⟩
  rw [← String.not_le]
  exact fun more => different (String.le_antisymm (of_decide_eq_true least) more)

/-- A walk comes upon nothing but the files. -/
theorem Opens.walk_eq (opens : node.Opens path) :
    node.walk path = (node.leaves.map (Leaf.file path)).map .file := by
  induction opens with
  | file => rfl
  | directory short distinct inside ih =>
      rw [walk_directory short, leaves_directory, List.map_flatMap, List.map_flatMap]
      apply List.flatMap_congr
      intro entry present
      rw [ih entry (List.mem_mergeSort.1 present)]
      simp only [List.map_map]
      rfl

theorem Opens.mem_leaves (opens : node.Opens path) {leaf : Leaf} :
    leaf ∈ node.leaves ↔ node.at? leaf.names = some (.file leaf.content) := by
  rcases leaf with ⟨names, content⟩
  induction opens generalizing names with
  | file path held =>
      cases names with
      | nil => simp [leaves, at?, eq_comm]
      | cons name names => simp [leaves, at?_cons, child?]
  | @directory path entries short distinct inside ih =>
      rw [leaves_directory, List.mem_flatMap]
      simp only [List.mem_mergeSort, List.mem_map]
      cases names with
      | nil =>
          constructor
          · rintro ⟨_, _, _, _, same⟩
            cases same
          · intro held
            cases held
      | cons name names =>
          rw [at?_cons, Option.bind_eq_some_iff]
          constructor
          · rintro ⟨entry, present, inner, among, same⟩
            cases same
            exact ⟨_, lookup_eq_some_of_mem distinct present, (ih entry present _).1 among⟩
          · rintro ⟨node, found, held⟩
            have present := mem_of_lookup_eq_some found
            exact ⟨_, present, _, (ih _ present names).2 held, rfl⟩

theorem Opens.pairwise_leaves (opens : node.Opens path) : node.leaves.Pairwise Leaf.Precedes := by
  induction opens with
  | file => exact List.pairwise_singleton _ _
  | directory short distinct inside ih =>
      rw [leaves_directory, List.pairwise_flatMap]
      -- Below one entry all first names are the same, below two entries they decide.
      constructor
      · intro entry present
        rw [List.pairwise_map]
        exact (ih entry (List.mem_mergeSort.1 present)).imp Leaf.precedes_below.2
      · refine (pairwise_mergeSort_byName distinct).imp ?_
        intro first later less a fromFirst b fromLater
        rcases List.mem_map.1 fromFirst with ⟨_, _, rfl⟩
        rcases List.mem_map.1 fromLater with ⟨_, _, rfl⟩
        exact Leaf.precedes_of_lt less

/-- The message with which a walk through a directory begins. -/
def announcement (input : String) (node : Node) : List Message :=
  if node.isDirectory then [⟨.info, "Crawling " ++ input ++ "...", []⟩] else []

end Node

namespace Settings

variable (settings : Settings) {disk other : Disk} {input path : String} {node tree : Node}
variable {leaves : List Leaf}

/-- The file is in the tree, and its path has the extension of documents. -/
structure Finds (input : String) (node : Node) (leaf : Leaf) : Prop where
  held : node.at? leaf.names = some (.file leaf.content)
  extension : extension? (fileName (leaf.file input).path) = some settings.extension.toList

/-- The files with documents in a tree, each once and in their order. -/
structure Reads (input : String) (node : Node) (leaves : List Leaf) : Prop where
  mem : ∀ leaf, leaf ∈ leaves ↔ settings.Finds input node leaf
  ordered : leaves.Pairwise Leaf.Precedes

/-- The documents in a text. -/
def documents (text : String) : Except Failure String :=
  if settings.js then Embedded.embeddedText text settings.literalTag else .ok text

/-- The file can be opened, its bytes are a text, and these are the documents in the text. -/
def Gives (file : File) (found : String) : Prop :=
  ∃ text, file.text? = some text ∧ settings.documents text = .ok found

theorem fileText_of_none {file : File} (unreadable : file.text? = none) :
    settings.fileText file = .error (.unreadable file.path) := by
  rw [fileText, unreadable]

theorem fileText_eq_ok {file : File} {found : String} :
    settings.fileText file = .ok found ↔ settings.Gives file found := by
  rw [fileText, Gives]
  cases file.text? with
  | none => simp
  | some text =>
      simp only [Option.some.injEq, exists_eq_left', documents]
      split
      · exact mapError_eq_ok
      · rw [Except.ok.injEq, Except.ok.injEq]

/-- Where the tag compiles, every file that is a text gives documents. -/
theorem exists_gives (compiles : settings.literalTag.utf8ByteSize ≤ Embedded.tagLimit) {file : File}
    (readable : file.text?.isSome) : ∃ found, settings.Gives file found := by
  rcases Option.isSome_iff_exists.1 readable with ⟨text, read⟩
  by_cases js : settings.js = true
  · exact ⟨_, text, read, (if_pos js).trans (Embedded.embeddedText_eq_ok (if_pos compiles))⟩
  · exact ⟨text, text, read, if_neg js⟩

variable {settings}

/-- The files are determined by the tree. -/
theorem Reads.eq {others : List Leaf} (reads : settings.Reads input node leaves)
    (again : settings.Reads path tree others)
    (same : ∀ leaf, settings.Finds input node leaf ↔ settings.Finds path tree leaf) :
    leaves = others := by
  apply reads.ordered.eq_of_mem_iff again.ordered
  intro leaf
  rw [reads.mem, again.mem, same]

variable (settings) in
theorem reads_filter (opens : node.Opens input) :
    settings.Reads input node (node.leaves.filter fun leaf => settings.selects (leaf.file input))
    where
  mem leaf := by
    rw [List.mem_filter, opens.mem_leaves]
    exact ⟨fun ⟨held, selected⟩ => ⟨held, of_decide_eq_true selected⟩,
      fun ⟨held, extension⟩ => ⟨held, decide_eq_true extension⟩⟩
  ordered := opens.pairwise_leaves.filter _

/-- The files with documents are those that are selected of all files. -/
theorem Reads.map_file (reads : settings.Reads input node leaves) (opens : node.Opens input) :
    leaves.map (Leaf.file input) =
      (node.leaves.map (Leaf.file input)).filter settings.selects := by
  rw [reads.eq (reads_filter settings opens) fun _ => Iff.rfl, List.filter_map]
  rfl

theorem Reads.chosen_eq (reads : settings.Reads input node leaves) (opens : node.Opens input) :
    settings.chosen input node = leaves.map (Leaf.file input) := by
  rw [reads.map_file opens, chosen, opens.walk_eq, List.filterMap_map, ← List.filterMap_eq_filter]
  rfl

variable (settings) in
/-- Files without documents are passed over. -/
theorem mapM_readVisit (files : List File) :
    List.filterMap id <$> (files.map Visit.file).mapM settings.readVisit =
      (files.filter settings.selects).mapM settings.readFile := by
  induction files with
  | nil => rfl
  | cons file rest ih =>
      rw [List.map_cons, List.mapM_cons, readVisit]
      by_cases selected : settings.selects file = true
      · rw [if_pos selected, List.filter_cons_of_pos selected, List.mapM_cons, ← ih]
        simp only [map_eq_pure_bind, bind_assoc, pure_bind, List.filterMap_cons, id_eq]
      · rw [if_neg selected, List.filter_cons_of_neg selected, ← ih]
        simp only [map_eq_pure_bind, bind_assoc, pure_bind, List.filterMap_cons, id_eq]

/-- Reading the input is reading the files with documents, one after the other. -/
theorem Reads.readInput_eq (reads : settings.Reads input node leaves)
    (found : disk.find? input = some node) (opens : node.Opens input) :
    settings.readInput disk input =
      (if node.isDirectory then Run.log .info ("Crawling " ++ input ++ "...") else pure ()) >>=
        fun _ => ("\n".intercalate ·) <$> (leaves.map (Leaf.file input)).mapM settings.readFile := by
  rw [readInput, found, reads.map_file opens, ← mapM_readVisit, ← opens.walk_eq]
  dsimp only
  split <;> simp only [map_eq_pure_bind, bind_assoc, pure_bind]

theorem does_readFile_of_gives {file : File} {found : String} (gives : settings.Gives file found) :
    (settings.readFile file).Does (.ok found) [file.announcement] := by
  have does := settings.does_readFile file
  rwa [settings.fileText_eq_ok.2 gives] at does

theorem does_announcement (input : String) (node : Node) :
    Run.Does (if node.isDirectory then Run.log .info ("Crawling " ++ input ++ "...") else pure ())
      (.ok ()) (node.announcement input) := by
  rw [Node.announcement]
  split
  · exact Run.does_log _ _ _
  · exact Run.does_pure _

/-- Files that all give documents are read to the end. -/
theorem Reads.does_readInput (reads : settings.Reads input node leaves)
    (found : disk.find? input = some node) (opens : node.Opens input) {texts : List String}
    (each : List.Forall₂ settings.Gives (leaves.map (Leaf.file input)) texts) :
    (settings.readInput disk input).Does (.ok ("\n".intercalate texts))
      (node.announcement input ++ (leaves.map (Leaf.file input)).map File.announcement) := by
  rw [reads.readInput_eq found opens]
  refine (does_announcement input node).bind_ok (Run.Does.map (Run.Does.mapM ?_) _)
  exact each.imp fun _ _ gives => does_readFile_of_gives gives

/-- The first file that gives none ends the reading. -/
theorem Reads.does_readInput_error {before after : List Leaf} {leaf : Leaf}
    (reads : settings.Reads input node (before ++ leaf :: after))
    (found : disk.find? input = some node) (opens : node.Opens input) {texts : List String}
    (each : List.Forall₂ settings.Gives (before.map (Leaf.file input)) texts)
    (unreadable : (leaf.file input).text? = none) :
    (settings.readInput disk input).Does (.error (.unreadable (leaf.file input).path))
      (node.announcement input ++
        ((before ++ [leaf]).map (Leaf.file input)).map File.announcement) := by
  have fails := settings.does_readFile (leaf.file input)
  rw [settings.fileText_of_none unreadable] at fails
  rw [reads.readInput_eq found opens, List.map_append, List.map_cons, List.map_append,
    List.map_singleton]
  have stops := Run.Does.mapM_error (each.imp fun _ _ gives => does_readFile_of_gives gives) fails
    (after.map (Leaf.file input))
  exact (does_announcement input node).bind_ok (stops.map _)

theorem Reads.texts_eq (reads : settings.Reads input node leaves)
    (found : disk.find? input = some node) (opens : node.Opens input) :
    settings.texts disk input = (leaves.map (Leaf.file input)).mapM settings.fileText := by
  rw [texts, found, ← reads.chosen_eq opens]
  rfl

theorem Reads.gives_of_texts (reads : settings.Reads input node leaves)
    (found : disk.find? input = some node) (opens : node.Opens input) {texts : List String}
    (read : settings.texts disk input = .ok texts) :
    List.Forall₂ (fun leaf text => settings.Gives (leaf.file input) text) leaves texts := by
  rw [reads.texts_eq found opens, mapM_eq_ok, List.forall₂_map_left_iff] at read
  exact read.imp fun _ _ => settings.fileText_eq_ok.1

/-- What a file gives depends on its bytes and not on where it is. -/
theorem Gives.eq {leaf : Leaf} {text again : String} (gives : settings.Gives (leaf.file input) text)
    (otherwise : settings.Gives (leaf.file path) again) : text = again := by
  rcases gives with ⟨bytes, read, documents⟩
  rcases otherwise with ⟨others, readAgain, documentsAgain⟩
  rw [File.text?] at read readAgain
  split_ifs at read readAgain
  cases read.symm.trans readAgain
  exact Except.ok.inj (documents.symm.trans documentsAgain)

theorem eq_of_gives {texts others : List String}
    (each : List.Forall₂ (fun leaf text => settings.Gives (leaf.file input) text) leaves texts)
    (eachOther : List.Forall₂ (fun leaf text => settings.Gives (leaf.file path) text) leaves others)
    : texts = others := by
  induction each generalizing others with
  | nil =>
      cases eachOther
      rfl
  | cons gives _ ih =>
      cases eachOther with
      | cons again rest => rw [gives.eq again, ih rest]

theorem extraction_eq_ok {texts : List String} (read : settings.texts disk input = .ok texts)
    {manifest : Manifest} :
    settings.extraction disk input = .ok manifest ↔
      ((Builder.new settings.pipeline).addSource ("\n".intercalate texts)).map Builder.manifest =
        .ok manifest := by
  rw [extraction, read]
  exact mapError_eq_ok

/-- Every file with documents below a path is read once, in an order that the names of the files
determine, until one of them cannot be read; the documents are joined in this order. So the same
files give the same text and the same manifest, in whatever order directories list them. -/
theorem readInput_in_order (settings : Settings) {disk : Disk} {input : String} {node : Node}
    (found : disk.find? input = some node) (opens : node.Opens input)
    (compiles : settings.literalTag.utf8ByteSize ≤ Embedded.tagLimit) :
    ∃ leaves, settings.Reads input node leaves ∧
      ((∀ leaf ∈ leaves, (leaf.file input).text?.isSome) →
        ∃ texts, List.Forall₂ settings.Gives (leaves.map (Leaf.file input)) texts ∧
          (settings.readInput disk input).Does (.ok ("\n".intercalate texts))
            (node.announcement input ++ (leaves.map (Leaf.file input)).map File.announcement)) ∧
      (∀ before leaf after, leaves = before ++ leaf :: after →
        (∀ earlier ∈ before, (earlier.file input).text?.isSome) → (leaf.file input).text? = none →
        (settings.readInput disk input).Does (.error (.unreadable (leaf.file input).path))
          (node.announcement input ++
            ((before ++ [leaf]).map (Leaf.file input)).map File.announcement)) ∧
      ∀ (other : Disk) (path : String) (tree : Node), other.find? path = some tree →
        tree.Opens path → (∀ leaf, settings.Finds input node leaf ↔ settings.Finds path tree leaf) →
        (path = input →
          (∀ outcome, (settings.readInput disk input).Ends outcome ↔
            (settings.readInput other path).Ends outcome) ∧
          ∀ outcome, (settings.extract disk input).Ends outcome ↔
            (settings.extract other path).Ends outcome) ∧
        ∀ text again, (settings.readInput disk input).Ends (.ok text) →
          (settings.readInput other path).Ends (.ok again) →
          text = again ∧ ∀ manifest, (settings.extract disk input).Ends (.ok manifest) ↔
            (settings.extract other path).Ends (.ok manifest) := by
  have reads := reads_filter settings opens
  have exists_texts (leaves : List Leaf)
      (readable : ∀ leaf ∈ leaves, (leaf.file input).text?.isSome) :
      ∃ texts, List.Forall₂ settings.Gives (leaves.map (Leaf.file input)) texts := by
    apply exists_forall₂
    intro file present
    rcases List.mem_map.1 present with ⟨leaf, among, rfl⟩
    exact settings.exists_gives compiles (readable leaf among)
  refine ⟨_, reads, ?_, ?_, ?_⟩
  · intro readable
    rcases exists_texts _ readable with ⟨texts, each⟩
    exact ⟨texts, each, reads.does_readInput found opens each⟩
  · intro before leaf after split readable unreadable
    rcases exists_texts _ readable with ⟨texts, each⟩
    rw [split] at reads
    exact reads.does_readInput_error found opens each unreadable
  · intro other path tree foundOther opensOther same
    have again := reads_filter settings opensOther
    rw [← reads.eq again same] at again
    constructor
    · rintro rfl
      have texts : settings.texts disk path = settings.texts other path := by
        rw [reads.texts_eq found opens, again.texts_eq foundOther opensOther]
      constructor
      · intro outcome
        rw [(settings.ends_readInput disk path).iff_eq, (settings.ends_readInput other path).iff_eq,
          texts]
      · intro outcome
        rw [(settings.ends_extract disk path).iff_eq, (settings.ends_extract other path).iff_eq,
          extraction, extraction, texts]
    · -- The paths may differ in length, so that files that one run reads are closed to the other.
      intro text otherText ends endsOther
      rw [(settings.ends_readInput disk input).iff_eq, map_eq_ok] at ends
      rw [(settings.ends_readInput other path).iff_eq, map_eq_ok] at endsOther
      rcases ends with ⟨texts, read, rfl⟩
      rcases endsOther with ⟨others, readOther, rfl⟩
      have equal := eq_of_gives (reads.gives_of_texts found opens read)
        (again.gives_of_texts foundOther opensOther readOther)
      refine ⟨by rw [equal], fun manifest => ?_⟩
      rw [(settings.ends_extract disk input).iff_eq, (settings.ends_extract other path).iff_eq,
        extraction_eq_ok read, extraction_eq_ok readOther, equal]

/-- A directory that is listed behind a file whose name begins with its own, and a file without
documents. -/
theorem readInput_in_order_of_directory :
    let tree : Node := .directory
      [("n.txt", .file "z".toUTF8), ("a.graphql", .file "y".toUTF8),
        ("a", .directory [("b.graphql", .file "x".toUTF8)])]
    let disk : Disk := ⟨.directory [("in", tree)], []⟩
    disk.find? "in" = some tree ∧ tree.Opens "in" ∧
      Settings.default.literalTag.utf8ByteSize ≤ Embedded.tagLimit ∧
      (Settings.default.readInput disk "in").Does (.ok "x\ny")
        [⟨.info, "Crawling in...", []⟩, ⟨.debug, "reading file", [("path", "in/a/b.graphql")]⟩,
          ⟨.debug, "reading file", [("path", "in/a.graphql")]⟩] := by
  intro tree disk
  have found : disk.find? "in" = some tree := by cbv
  have opens : tree.Opens "in" := by
    refine .directory (by decide) (by decide) ?_
    intro entry present
    simp only [List.mem_cons, List.not_mem_nil, or_false] at present
    rcases present with rfl | rfl | rfl
    · exact .file _ _
    · exact .file _ _
    · refine .directory (by cbv) (by decide) ?_
      intro entry present
      rw [List.mem_singleton.1 present]
      exact .file _ _
  have compiles : Settings.default.literalTag.utf8ByteSize ≤ Embedded.tagLimit := by decide
  have listed (x y z : ByteArray) : ((Node.directory [("n.txt", .file z), ("a.graphql", .file y),
      ("a", .directory [("b.graphql", .file x)])]).leaves.filter
        fun leaf => Settings.default.selects (leaf.file "in")) =
      [⟨["a", "b.graphql"], x⟩, ⟨["a.graphql"], y⟩] := by cbv
  have gives (names : List String) (text : String)
      (short : isPath (names.foldl joinPath "in") = true) :
      Settings.default.Gives (Leaf.file "in" ⟨names, text.toUTF8⟩) text :=
    ⟨text, (if_pos short).trans (fromUTF8?_toUTF8 text), rfl⟩
  have first := gives ["a", "b.graphql"] "x" (by cbv)
  have second := gives ["a.graphql"] "y" (by cbv)
  have said (x y : ByteArray) : tree.announcement "in" ++
      ([⟨["a", "b.graphql"], x⟩, ⟨["a.graphql"], y⟩].map (Leaf.file "in")).map File.announcement =
      [⟨.info, "Crawling in...", []⟩, ⟨.debug, "reading file", [("path", "in/a/b.graphql")]⟩,
        ⟨.debug, "reading file", [("path", "in/a.graphql")]⟩] := by cbv
  have joined : "\n".intercalate ["x", "y"] = "x\ny" := by cbv
  obtain ⟨leaves, reads, all, _⟩ := readInput_in_order Settings.default found opens compiles
  obtain rfl := (reads.eq (reads_filter _ opens) fun _ => Iff.rfl).trans (listed _ _ _)
  have readable : ∀ leaf ∈ [(⟨["a", "b.graphql"], "x".toUTF8⟩ : Leaf), ⟨["a.graphql"], "y".toUTF8⟩],
      (leaf.file "in").text?.isSome := by
    intro leaf present
    simp only [List.mem_cons, List.not_mem_nil, or_false] at present
    rcases present with rfl | rfl
    · exact Option.isSome_iff_exists.2 ⟨_, first.choose_spec.1⟩
    · exact Option.isSome_iff_exists.2 ⟨_, second.choose_spec.1⟩
  rcases all readable with ⟨texts, each, does⟩
  obtain rfl := eq_of_gives (List.forall₂_map_left_iff.1 each) (.cons first (.cons second .nil))
  rw [joined, said] at does
  exact ⟨found, opens, compiles, does⟩

end Settings

end PersistedDocuments
