import PersistedDocuments.Proofs.Crawl
import PersistedDocuments.Proofs.Disk
import PersistedDocuments.Proofs.Sorting
import Mathlib.Data.List.TakeWhile

/-!
# Walking around a written file

A file whose extension is not the one that is looked for plays no part in what a walk finds. So a
manifest that is written below the path of an extraction changes neither the files that are read nor
their order, unless it has the extension of documents.
-/

namespace PersistedDocuments

/-! ## The last part of a path -/

theorem fileName_of_noSlash {path : String} (noSlash : '/' ∉ path.toList) :
    fileName path = path.toList := by
  rw [fileName, List.takeWhile_eq_self_iff.2, List.reverse_reverse]
  intro c present
  rw [List.mem_reverse] at present
  exact decide_eq_true fun same => noSlash (same ▸ present)

theorem fileName_of_slash {path : String} {front name : List Char} (noSlash : '/' ∉ name)
    (same : path.toList = front ++ '/' :: name) : fileName path = name := by
  have all : ∀ c ∈ name.reverse, decide (c ≠ '/') = true := by
    intro c present
    rw [List.mem_reverse] at present
    exact decide_eq_true fun same => noSlash (same ▸ present)
  rw [fileName, same, List.reverse_append, List.reverse_cons, List.append_assoc,
    List.takeWhile_append_of_pos all]
  simp

/-- A path is without slashes, or its last slash cuts it in two. -/
theorem slash_cases (path : String) :
    '/' ∉ path.toList ∨ ∃ front name, path.toList = front ++ '/' :: name ∧ '/' ∉ name := by
  by_cases slash : '/' ∈ path.toList
  · right
    rcases List.eq_append_cons_of_mem (List.mem_reverse.2 slash) with ⟨front, back, same, noSlash⟩
    refine ⟨back.reverse, front.reverse, ?_, by simpa using noSlash⟩
    rw [← List.reverse_reverse path.toList, same]
    simp
  · exact .inl slash

/-- The file name of a path is its last part, which holds no slash. -/
theorem Disk.last_parts (path : String) :
    (parts path).getLast? = some (String.ofList (fileName path)) ∧ '/' ∉ fileName path := by
  rcases slash_cases path with noSlash | ⟨front, name, same, noSlash⟩
  · rw [parts, List.splitOn_eq_singleton noSlash, fileName_of_noSlash noSlash]
    exact ⟨rfl, noSlash⟩
  · rw [parts, same, List.splitOn_append_cons_self, List.splitOn_eq_singleton noSlash,
      fileName_of_slash noSlash same, List.map_append, List.map_singleton]
    exact ⟨List.getLast?_concat, noSlash⟩

/-- The file that is written under a path has the path's last part for its name. -/
theorem Disk.Targets.fileName_eq {disk : Disk} {path name : String} {parent : List String}
    (targets : disk.Targets path parent name) : fileName path = name.toList := by
  have ⟨lastPart, _⟩ := last_parts path
  rw [targets.last, Option.some.injEq] at lastPart
  rw [lastPart, String.toList_ofList]

/-- So has a file to which a path leads. -/
theorem Disk.eq_concat_of_file {disk : Disk} {path : String} {place : List String}
    {content : ByteArray} (led : disk.locate? path = some place)
    (file : disk.root.occupant? place = some (.file content)) :
    ∃ parent, place = parent ++ [String.ofList (fileName path)] := by
  have ⟨lastPart, _⟩ := last_parts path
  rw [locate?] at led
  split_ifs at led
  rw [← List.dropLast_append_getLast? _ lastPart] at led
  exact follow_file led file

/-- The entry of a directory is named last in its path. -/
theorem fileName_joinPath (path : String) {name : String} (noSlash : '/' ∉ name.toList) :
    fileName (joinPath path name) = name.toList := by
  rw [joinPath]
  split
  · next ends =>
      rw [String.endsWith_eq_endsWith_toSlice, String.Slice.endsWith_string_iff] at ends
      rcases ends with ⟨front, same⟩
      rw [String.copy_toSlice] at same
      have parted : (path ++ name).toList = front ++ '/' :: name.toList := by
        rw [String.toList_append, ← same]
        simp
      exact fileName_of_slash noSlash parted
  · have parted : (path ++ "/" ++ name).toList = path.toList ++ '/' :: name.toList := by simp
    exact fileName_of_slash noSlash parted

/-! ## The files that are read -/

/-- The order of a directory's entries in a walk. -/
def byName {β : Type} (a b : String × β) : Bool := decide (a.1 ≤ b.1)

section

variable {β γ : Type}

theorem byName_trans (a b c : String × β) (ab : byName a b) (bc : byName b c) : byName a c :=
  decide_eq_true (String.le_trans (of_decide_eq_true ab) (of_decide_eq_true bc))

theorem byName_total (a b : String × β) : byName a b || byName b a := by
  simpa [byName] using String.le_total a.1 b.1

/-- Entries are sorted by their names, whatever stands under these. -/
theorem mergeSort_byName_map (value : String × β → γ) (entries : List (String × β)) :
    (entries.map fun entry => (entry.1, value entry)).mergeSort byName =
      (entries.mergeSort byName).map fun entry => (entry.1, value entry) := by
  symm
  apply List.map_mergeSort
  exact fun _ _ _ _ => rfl

end

/-- Entries without anything to show may be left out before sorting. -/
theorem flatMap_mergeSort_filter {β : Type} (items : List (String × List β)) :
    ((items.filter fun item => !item.2.isEmpty).mergeSort byName).flatMap Prod.snd =
      (items.mergeSort byName).flatMap Prod.snd := by
  rw [← filter_mergeSort byName_trans byName_total]
  induction items.mergeSort byName with
  | nil => rfl
  | cons item rest ih =>
      rcases item with ⟨name, values⟩
      cases values with
      | nil => exact ih
      | cons value values => exact congrArg (value :: values ++ ·) ih

/-- The entries of a directory are walked through in the order of their names. -/
theorem Node.walk_directory {path : String} (short : isPath path = true)
    (entries : List (String × Node)) :
    (Node.directory entries).walk path =
      (entries.mergeSort byName).flatMap fun entry => entry.2.walk (joinPath path entry.1) := by
  have walks : entryWalks path entries =
      entries.map fun entry => (entry.1, entry.2.walk (joinPath path entry.1)) := by
    induction entries with
    | nil => rfl
    | cons entry rest ih => rw [entryWalks, ih, List.map_cons]
  rw [walk, if_pos short, walks]
  change (List.mergeSort _ byName).flatMap _ = _
  rw [mergeSort_byName_map, List.flatMap_map]

namespace Settings

variable (settings : Settings)

/-- The files that are read at and below a node to which a path leads. -/
def chosen (path : String) (node : Node) : List File :=
  (node.walk path).filterMap settings.chosen?

/-- The entries of a directory, each with the files that are read at and below it. -/
def chosenEntries (path : String) (entries : List (String × Node)) : List (String × List File) :=
  entries.map fun entry => (entry.1, settings.chosen (joinPath path entry.1) entry.2)

theorem chosen_directory (path : String) (entries : List (String × Node)) :
    settings.chosen path (.directory entries) =
      if isPath path then ((settings.chosenEntries path entries).mergeSort byName).flatMap Prod.snd
      else [] := by
  split
  · next short =>
      rw [chosen, Node.walk_directory short, List.filterMap_flatMap, chosenEntries,
        mergeSort_byName_map, List.flatMap_map]
      rfl
  · next long =>
      rw [chosen, Node.walk, if_neg long]
      rfl

/-- What a directory gives depends on the entries that give something. -/
theorem chosen_congr {path : String} {entries others : List (String × Node)}
    (same : (settings.chosenEntries path entries).filter (fun item => !item.2.isEmpty) =
      (settings.chosenEntries path others).filter (fun item => !item.2.isEmpty)) :
    settings.chosen path (.directory entries) = settings.chosen path (.directory others) := by
  rw [chosen_directory, chosen_directory, ← flatMap_mergeSort_filter, same,
    flatMap_mergeSort_filter]

/-- A file of another extension is not read. -/
def Skips (name : List Char) : Prop := extension? name ≠ some settings.extension.toList

variable {settings}

theorem chosen_file {path : String} (skips : settings.Skips (fileName path))
    (content : ByteArray) : settings.chosen path (.file content) = [] := by
  have unread : settings.selects ⟨path, content⟩ = false := decide_eq_false skips
  rw [chosen, Node.walk, List.filterMap_cons, chosen?, unread]
  rfl

/-- An entry that gives nothing before and after it is set changes nothing that is given. -/
theorem filter_chosenEntries_setEntry {path name : String} {entries : List (String × Node)}
    {added : Node} (before : ∀ old, entries.lookup name = some old →
      settings.chosen (joinPath path name) old = settings.chosen (joinPath path name) added)
    (new : entries.lookup name = none → settings.chosen (joinPath path name) added = []) :
    (settings.chosenEntries path (Node.setEntry entries name added)).filter
        (fun item => !item.2.isEmpty) =
      (settings.chosenEntries path entries).filter (fun item => !item.2.isEmpty) := by
  induction entries with
  | nil =>
      rw [Node.setEntry, chosenEntries, List.map_singleton, new rfl]
      rfl
  | cons entry rest ih =>
      rcases entry with ⟨other, old⟩
      by_cases same : other = name
      · subst same
        rw [Node.setEntry, if_pos rfl, chosenEntries, chosenEntries, List.map_cons, List.map_cons,
          before old List.lookup_cons_self]
      · have skipped : ((other, old) :: rest).lookup name = rest.lookup name := by
          rw [List.lookup_cons, beq_false_of_ne (Ne.symm same)]
        rw [skipped] at before new
        rw [Node.setEntry, if_neg same, chosenEntries, chosenEntries, List.map_cons, List.map_cons,
          List.filter_cons, List.filter_cons]
        have others := ih before new
        rw [chosenEntries, chosenEntries] at others
        rw [others]

/-- Below a path nothing else is read if a file of another extension is put there. -/
theorem chosen_put {parent : List String} {name : String} (noSlash : '/' ∉ name.toList)
    (skips : settings.Skips name.toList) {node : Node}
    (directory : node.occupant? parent = some .directory)
    (free : node.occupant? (parent ++ [name]) ≠ some .directory) (content : ByteArray)
    (path : String) :
    settings.chosen path (Node.put (.file content) (parent ++ [name]) node) =
      settings.chosen path node := by
  induction parent generalizing node path with
  | nil =>
      cases node with
      | file content => cases directory
      | directory entries =>
          have unread (content : ByteArray) :
              settings.chosen (joinPath path name) (.file content) = [] :=
            chosen_file (by rwa [fileName_joinPath path noSlash]) content
          have put : Node.put (.file content) ([] ++ [name]) (.directory entries) =
              .directory (Node.setEntry entries name (.file content)) := rfl
          rw [put]
          apply chosen_congr
          apply filter_chosenEntries_setEntry
          · intro old found
            cases old with
            | file other => rw [unread, unread]
            | directory inside =>
                have held : (Node.directory entries).occupant? ([] ++ [name]) =
                    some .directory := by
                  rw [Node.occupant?_concat rfl, found]
                  rfl
                exact absurd held free
          · exact fun _ => unread content
  | cons first parent ih =>
      rw [Node.occupant?_cons] at directory
      rcases Option.bind_eq_some_iff.1 directory with ⟨inner, found, inside⟩
      rw [List.cons_append, Node.occupant?_cons, found] at free
      cases node with
      | file content => cases found
      | directory entries =>
          rw [List.cons_append, Node.put_cons found]
          apply chosen_congr
          apply filter_chosenEntries_setEntry
          · intro old same
            cases found.symm.trans same
            exact (ih inside free (joinPath path first)).symm
          · intro absent
            cases found.symm.trans absent

/-- Nothing is read under a path that leads to the place of a file of another extension. -/
theorem chosen_of_file {disk : Disk} {input name : String} {parent : List String}
    {old : ByteArray} (led : disk.locate? input = some (parent ++ [name]))
    (held : disk.root.at? (parent ++ [name]) = some (.file old))
    (unread : settings.Skips name.toList) (content : ByteArray) :
    settings.chosen input (.file content) = [] := by
  rcases Disk.eq_concat_of_file led (Node.occupant?_file.2 held) with ⟨_, same⟩
  have ends : name = String.ofList (fileName input) :=
    List.singleton_inj.1 (List.append_inj' same rfl).2
  rw [ends, String.toList_ofList] at unread
  exact chosen_file unread content

/-- Below a path nothing else is read if a file of another extension is written there. -/
theorem chosen_put_of_targets {disk : Disk} {path name : String} {place inside : List String}
    (targets : disk.Targets path (place ++ inside) name) {node : Node}
    (held : disk.root.at? place = some node) (unread : settings.Skips name.toList)
    (content : ByteArray) (input : String) :
    settings.chosen input (Node.put (.file content) (inside ++ [name]) node) =
      settings.chosen input node := by
  have noSlash : '/' ∉ name.toList := by
    rw [← targets.fileName_eq]
    exact (Disk.last_parts path).2
  have inner (names : List String) :
      disk.root.occupant? (place ++ names) = node.occupant? names := by
    rw [Node.occupant?, Node.at?_append, held]
    rfl
  have directory := targets.directory
  have free := targets.free
  rw [inner] at directory
  rw [List.append_assoc, inner] at free
  exact chosen_put noSlash unread directory free content input

/-- The files that are read at and below a path stay the same if a file is written that is not one
of them. -/
theorem chosen_of_targets {disk : Disk} {path input name : String} {parent place : List String}
    (targets : disk.Targets path parent name) {node : Node}
    (led : disk.locate? input = some place) (held : disk.root.at? place = some node)
    (skips : place <+: parent ++ [name] → settings.Skips name.toList) (content : ByteArray) :
    ∃ changed, (Node.put (.file content) (parent ++ [name]) disk.root).at? place = some changed ∧
      settings.chosen input changed = settings.chosen input node := by
  by_cases within : place <+: parent ++ [name]
  · have unread := skips within
    rcases within with ⟨below, same⟩
    rcases List.eq_nil_or_concat below with rfl | ⟨inside, last, rfl⟩
    · -- The path leads to the file that is written.
      rw [List.append_nil] at same
      subst same
      cases node with
      | directory entries =>
          exact absurd (Node.occupant?_directory.2 ⟨entries, held⟩) targets.free
      | file old =>
          have nothing := chosen_of_file led held unread
          exact ⟨_, Node.at?_put_self targets.directory, (nothing content).trans (nothing old).symm⟩
    · rw [List.concat_eq_append, ← List.append_assoc] at same
      have ⟨parents, names⟩ := List.append_inj' same rfl
      rw [List.singleton_inj] at names
      subst parents names
      rw [List.append_assoc]
      exact ⟨_, Node.at?_put_append held _, chosen_put_of_targets targets held unread content input⟩
  · have apart : ¬parent ++ [name] <+: place := by
      rintro ⟨below, rfl⟩
      have proper : below ≠ [] := by
        rintro rfl
        exact within ⟨[], by rw [List.append_nil, List.append_nil]⟩
      have nothing := Node.occupant?_below targets.free proper
      rw [Node.occupant?, held] at nothing
      cases nothing
    exact ⟨node, (Node.at?_put_of_apart targets.directory apart within).trans held, rfl⟩

/-- So the texts stay the same. -/
theorem texts_of_targets {before : Disk} {path input name : String} {parent : List String}
    (targets : before.Targets path parent name) (content : ByteArray) {texts : List String}
    (found : settings.texts before input = .ok texts)
    (skips : ∀ place, before.locate? input = some place → place <+: parent ++ [name] →
      settings.Skips name.toList) :
    settings.texts { before with root := Node.put (.file content) (parent ++ [name]) before.root }
      input = .ok texts := by
  have wrote := targets.wrote content
  rw [Settings.texts] at found ⊢
  cases led : before.locate? input with
  | none =>
      rw [Disk.find?, led] at found
      cases found
  | some place =>
      rw [Disk.find?, wrote.locate? targets.free led]
      rw [Disk.find?, led] at found
      dsimp only [bind, Option.bind] at found ⊢
      cases held : before.root.at? place with
      | none =>
          rw [held] at found
          cases found
      | some node =>
          rw [held] at found
          rcases chosen_of_targets targets led held (skips place led) content with
            ⟨changed, heldAfter, same⟩
          rw [heldAfter]
          dsimp only at found ⊢
          rw [← found]
          exact congrArg (List.mapM settings.fileText) same

end Settings

end PersistedDocuments
