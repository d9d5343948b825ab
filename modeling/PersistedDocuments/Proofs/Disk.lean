import PersistedDocuments.Disk
import Mathlib.Data.List.Basic

/-!
# Writing a file

A text is written to a place that a directory holds and where no directory stands. Nothing else of
the tree changes, so whatever a path has led to before it still leads to, and writing what is
already there leaves the tree as it is.
-/

namespace PersistedDocuments

/-- What stands at a place, without what a directory holds. -/
inductive Occupant where
  | file (content : ByteArray)
  | directory

namespace Node

variable {root node added inner : Node} {entries : List (String × Node)} {name other : String}
variable {names place parent : List String} {content : ByteArray}

def occupant : Node → Occupant
  | .file content => .file content
  | .directory _ => .directory

/-- What stands at the place that names lead to, if there is something. -/
def occupant? (root : Node) (names : List String) : Option Occupant :=
  (root.at? names).map occupant

/-! ## Places in a tree -/

theorem at?_cons (root : Node) (name : String) (names : List String) :
    root.at? (name :: names) = (root.child? name).bind (·.at? names) := rfl

theorem at?_append (root : Node) (place names : List String) :
    root.at? (place ++ names) = (root.at? place).bind (·.at? names) :=
  List.foldlM_append

theorem occupant?_cons (root : Node) (name : String) (names : List String) :
    root.occupant? (name :: names) = (root.child? name).bind (·.occupant? names) := by
  rw [occupant?, at?_cons]
  cases root.child? name <;> rfl

theorem occupant?_directory :
    root.occupant? names = some .directory ↔ ∃ entries, root.at? names = some (.directory entries)
    := by
  rw [occupant?]
  cases root.at? names with
  | none => simp
  | some node => cases node <;> simp [occupant]

theorem occupant?_file :
    root.occupant? names = some (.file content) ↔ root.at? names = some (.file content) := by
  rw [occupant?]
  cases root.at? names with
  | none => simp
  | some node => cases node <;> simp [occupant]

/-- A place in a directory is one of its entries. -/
theorem occupant?_concat (held : root.at? names = some (.directory entries)) (name : String) :
    root.occupant? (names ++ [name]) = (entries.lookup name).map occupant := by
  rw [occupant?, at?_append, held]
  change ((entries.lookup name).bind (·.at? [])).map occupant = _
  cases entries.lookup name <;> rfl

/-! ## Entries -/

theorem lookup_setEntry_self (entries : List (String × Node)) (name : String) (node : Node) :
    (setEntry entries name node).lookup name = some node := by
  induction entries with
  | nil => simp [setEntry]
  | cons entry rest ih =>
      rcases entry with ⟨other, old⟩
      by_cases same : other = name
      · simp [setEntry, same]
      · simp [setEntry, same, List.lookup_cons, beq_false_of_ne (Ne.symm same), ih]

theorem lookup_setEntry_other (different : other ≠ name) (entries : List (String × Node))
    (node : Node) : (setEntry entries name node).lookup other = entries.lookup other := by
  induction entries with
  | nil => simp [setEntry, List.lookup_cons, beq_false_of_ne different]
  | cons entry rest ih =>
      rcases entry with ⟨first, old⟩
      by_cases same : first = name
      · simp [setEntry, same, List.lookup_cons, beq_false_of_ne different]
      · simp [setEntry, same, List.lookup_cons, ih]

theorem setEntry_of_lookup (held : entries.lookup name = some node) :
    setEntry entries name node = entries := by
  induction entries with
  | nil => cases held
  | cons entry rest ih =>
      rcases entry with ⟨first, old⟩
      by_cases same : first = name
      · subst same
        rw [List.lookup_cons_self] at held
        rw [setEntry, if_pos rfl, Option.some.inj held]
      · rw [List.lookup_cons, beq_false_of_ne (Ne.symm same)] at held
        simp [setEntry, same, ih held]

/-! ## Putting a node -/

theorem put_cons (held : entries.lookup name = some inner) :
    put added (name :: names) (.directory entries) =
      .directory (setEntry entries name (put added names inner)) := by
  rw [put, held]
  rfl

/-- A tree changes at a place as the node there does. -/
theorem at?_put_append (held : root.at? place = some node) (names : List String) :
    (put added (place ++ names) root).at? place = some (put added names node) := by
  induction place generalizing root with
  | nil =>
      cases held
      rfl
  | cons first place ih =>
      cases root with
      | file content => cases held
      | directory entries =>
          rcases Option.bind_eq_some_iff.1 held with ⟨inner, found, below⟩
          rw [List.cons_append, put_cons found, at?_cons]
          change (List.lookup first (setEntry entries first _)).bind _ = _
          rw [lookup_setEntry_self]
          exact ih below

/-- A place keeps what is there if neither it leads to the changed one nor the other way round. -/
theorem at?_put_of_apart (directory : root.occupant? parent = some .directory)
    (above : ¬parent ++ [name] <+: place) (below : ¬place <+: parent ++ [name]) :
    (put added (parent ++ [name]) root).at? place = root.at? place := by
  cases place with
  | nil => exact absurd List.nil_prefix below
  | cons other place =>
      induction parent generalizing root other place with
      | nil =>
          cases root with
          | file content => cases directory
          | directory entries =>
              have different : other ≠ name := by
                rintro rfl
                exact above ⟨place, rfl⟩
              change ((setEntry entries name _).lookup other).bind _ = _
              rw [lookup_setEntry_other different]
              rfl
      | cons first parent ih =>
          rw [occupant?_cons] at directory
          rcases Option.bind_eq_some_iff.1 directory with ⟨inner, found, inside⟩
          cases root with
          | file content => cases found
          | directory entries =>
              rw [List.cons_append, put_cons found]
              change ((setEntry entries first _).lookup other).bind _ = _
              by_cases same : other = first
              · subst same
                rw [List.cons_append, List.cons_prefix_cons] at above below
                have insideAbove : ¬parent ++ [name] <+: place := fun leads => above ⟨rfl, leads⟩
                have insideBelow : ¬place <+: parent ++ [name] := fun leads => below ⟨rfl, leads⟩
                cases place with
                | nil => exact absurd List.nil_prefix insideBelow
                | cons next place =>
                    rw [lookup_setEntry_self, at?_cons, found]
                    exact ih inside next place insideAbove insideBelow
              · rw [lookup_setEntry_other same]
                rfl

/-- What has been put is there. -/
theorem at?_put_self (directory : root.occupant? parent = some .directory) :
    (put added (parent ++ [name]) root).at? (parent ++ [name]) = some added := by
  rcases occupant?_directory.1 directory with ⟨entries, held⟩
  rw [at?_append, at?_put_append held]
  change ((setEntry entries name _).lookup name).bind _ = _
  rw [lookup_setEntry_self]
  rfl

/-- A directory on the way to the changed place stays one. -/
theorem occupant?_put_above (held : root.occupant? place = some .directory) (names : List String)
    (proper : names ≠ []) :
    (put added (place ++ names) root).occupant? place = some .directory := by
  rcases occupant?_directory.1 held with ⟨entries, held⟩
  rw [occupant?, at?_put_append held]
  cases names with
  | nil => exact absurd rfl proper
  | cons name names => rfl

/-- Nothing is below a place where no directory stands. -/
theorem occupant?_below (free : root.occupant? names ≠ some .directory) {below : List String}
    (proper : below ≠ []) : root.occupant? (names ++ below) = none := by
  cases below with
  | nil => exact absurd rfl proper
  | cons name below =>
      rw [occupant?, at?_append]
      cases held : root.at? names with
      | none => rfl
      | some node =>
          cases node with
          | file content => rfl
          | directory entries => exact absurd (occupant?_directory.2 ⟨entries, held⟩) free

/-- Everything above a directory is a directory. -/
theorem occupant?_above {below : List String}
    (directory : root.occupant? (place ++ below) = some .directory) :
    root.occupant? place = some .directory := by
  cases below with
  | nil => rwa [List.append_nil] at directory
  | cons name below =>
      by_cases held : root.occupant? place = some .directory
      · exact held
      · rw [occupant?_below held (List.cons_ne_nil _ _)] at directory
        cases directory

/-- A file that is put where no directory stands changes no other place. -/
theorem occupant?_put_other (directory : root.occupant? parent = some .directory)
    (free : root.occupant? (parent ++ [name]) ≠ some .directory) (content : ByteArray)
    (different : place ≠ parent ++ [name]) :
    (put (.file content) (parent ++ [name]) root).occupant? place = root.occupant? place := by
  by_cases above : parent ++ [name] <+: place
  · rcases above with ⟨below, rfl⟩
    have proper : below ≠ [] := by
      rintro rfl
      exact different (List.append_nil _)
    have file : (put (.file content) (parent ++ [name]) root).occupant? (parent ++ [name]) ≠
        some .directory := by
      rw [occupant?, at?_put_self directory]
      exact fun same => nomatch same
    rw [occupant?_below file proper, occupant?_below free proper]
  · by_cases below : place <+: parent ++ [name]
    · rcases (List.prefix_concat_iff.1 below).resolve_left different with ⟨rest, rfl⟩
      have held := occupant?_above directory
      rw [List.append_assoc, occupant?_put_above held _ (by simp), held]
    · rw [occupant?, at?_put_of_apart directory above below, occupant?]

/-- Putting what is there changes nothing. -/
theorem put_of_at? (held : root.at? names = some added) : put added names root = root := by
  induction names generalizing root with
  | nil =>
      cases held
      rfl
  | cons name names ih =>
      rcases Option.bind_eq_some_iff.1 held with ⟨inner, found, below⟩
      cases root with
      | file content => cases found
      | directory entries => rw [put_cons found, ih below, setEntry_of_lookup found]

end Node

namespace Disk

variable {disk after : Disk} {path text name : String} {place names parent steps : List String}
variable {root : Node} {content : ByteArray}

/-! ## Paths -/

/-- One part of a path is followed from a directory only. -/
theorem follow_cons_eq_some {part : String} :
    follow root names (part :: steps) = some place ↔
      root.occupant? names = some .directory ∧
        if part = "" ∨ part = "." then follow root names steps = some place
        else if part = ".." then follow root names.dropLast steps = some place
        else (root.occupant? (names ++ [part])).isSome ∧
          follow root (names ++ [part]) steps = some place := by
  rw [follow]
  cases held : root.at? names with
  | none => simp [Node.occupant?, held]
  | some node =>
      cases node with
      | file content => simp [Node.occupant?, held, Node.occupant]
      | directory entries =>
          rw [Node.occupant?_concat held, Node.occupant?, held]
          simp only [Option.map_some, Node.occupant, true_and, Option.isSome_map, Bool.or_eq_true,
            decide_eq_true_eq]
          split_ifs <;> simp_all

/-- Paths lead to the same places in a tree that has all the directories and whatever else is there.
-/
theorem follow_mono {before after : Node}
    (directories : ∀ names, before.occupant? names = some .directory →
      after.occupant? names = some .directory)
    (present : ∀ names, (before.occupant? names).isSome → (after.occupant? names).isSome)
    (led : follow before names steps = some place) : follow after names steps = some place := by
  induction steps generalizing names with
  | nil => exact led
  | cons part steps ih =>
      rw [follow_cons_eq_some] at led ⊢
      refine ⟨directories _ led.1, ?_⟩
      have further := led.2
      split_ifs at further ⊢
      · exact ih further
      · exact ih further
      · exact ⟨present _ further.1, ih further.2⟩

/-- Parts one after the other are followed from where the ones before them lead. -/
theorem follow_append {first later : List String} :
    follow root names (first ++ later) = some place ↔
      ∃ middle, follow root names first = some middle ∧ follow root middle later = some place := by
  induction first generalizing names with
  | nil => simp [follow]
  | cons part first ih =>
      rw [List.cons_append]
      simp only [follow_cons_eq_some]
      split_ifs <;> simp only [ih, exists_and_left, and_assoc]

/-- The last part of a path that leads to a file is the name of the file. -/
theorem follow_file (led : follow root names (steps ++ [name]) = some place)
    (file : root.occupant? place = some (.file content)) :
    ∃ parent, place = parent ++ [name] := by
  rcases follow_append.1 led with ⟨parent, _, last⟩
  rw [follow_cons_eq_some] at last
  have further := last.2
  have notDirectory : root.occupant? place ≠ some .directory := by
    rw [file]
    exact fun same => nomatch same
  split_ifs at further with stays leaves
  · cases further
    exact absurd last.1 notDirectory
  · cases further
    have directory := last.1
    cases names' : parent.getLast? with
    | none =>
        rw [List.getLast?_eq_none_iff.1 names'] at directory notDirectory
        exact absurd directory notDirectory
    | some final =>
        rw [← List.dropLast_append_getLast? final names'] at directory
        exact absurd (Node.occupant?_above directory) notDirectory
  · cases further.2
    exact ⟨parent, rfl⟩

theorem text?_eq_some :
    disk.text? path = some text ↔ ∃ place content, disk.locate? path = some place ∧
      disk.root.occupant? place = some (.file content) ∧ String.fromUTF8? content = some text := by
  constructor
  · intro read
    rcases Option.bind_eq_some_iff.1 read with ⟨node, found, decoded⟩
    rcases Option.bind_eq_some_iff.1 found with ⟨place, led, held⟩
    cases node with
    | file content => exact ⟨place, content, led, Node.occupant?_file.2 held, decoded⟩
    | directory entries => cases decoded
  · rintro ⟨place, content, led, file, decoded⟩
    rw [Disk.text?, find?, led]
    change (disk.root.at? place).bind _ = _
    rw [Node.occupant?_file.1 file]
    exact decoded

/-- Where a path is written: a file may stand there, or it is a new place in a directory. -/
structure Targets (disk : Disk) (path : String) (parent : List String) (name : String) : Prop where
  last : (parts path).getLast? = some name
  isPath : isPath path = true
  isEntryName : isEntryName name = true
  led : follow disk.root (disk.origin path) (parts path).dropLast = some parent
  directory : disk.root.occupant? parent = some .directory
  free : disk.root.occupant? (parent ++ [name]) ≠ some .directory

theorem exists_targets (found : disk.target? path = some names) :
    ∃ parent name, names = parent ++ [name] ∧ disk.Targets path parent name := by
  rcases Option.bind_eq_some_iff.1 found with ⟨name, last, found⟩
  by_cases invalid : (!PersistedDocuments.isPath path || !PersistedDocuments.isEntryName name) =
      true
  · rw [if_pos invalid] at found
    cases found
  · rw [if_neg invalid] at found
    rcases Option.bind_eq_some_iff.1 found with ⟨parent, led, found⟩
    rcases Option.bind_eq_some_iff.1 found with ⟨node, held, found⟩
    simp only [Bool.or_eq_true, Bool.not_eq_true', not_or, Bool.not_eq_false] at invalid
    cases node with
    | file content => cases found
    | directory entries =>
        have directory := Node.occupant?_directory.2 ⟨entries, held⟩
        have entry := Node.occupant?_concat held name
        dsimp only at found
        split at found
        · cases found
        · next notDirectory =>
            cases found
            refine ⟨parent, name, rfl, last, invalid.1, invalid.2, led, directory, ?_⟩
            rw [entry]
            intro inside
            rcases Option.map_eq_some_iff.1 inside with ⟨node, among, same⟩
            cases node with
            | file content => cases same
            | directory entries => exact notDirectory _ among

theorem Targets.target? (targets : disk.Targets path parent name) :
    disk.target? path = some (parent ++ [name]) := by
  rcases Node.occupant?_directory.1 targets.directory with ⟨entries, held⟩
  have entry := Node.occupant?_concat held name
  have free := targets.free
  rw [entry] at free
  simp only [Disk.target?, targets.last, Option.bind_eq_bind, Option.bind_some, targets.isPath,
    targets.isEntryName, Bool.not_true, Bool.or_self, Bool.false_eq_true, if_false, targets.led,
    held]
  split
  · next inside => rw [inside] at free; exact absurd rfl free
  · rfl

/-! ## What a write changes -/

/-- The second disk is the first one with a file at the place. -/
structure Wrote (before after : Disk) (names : List String) (content : ByteArray) : Prop where
  here : after.here = before.here
  file : after.root.occupant? names = some (.file content)
  others : ∀ other, other ≠ names → after.root.occupant? other = before.root.occupant? other

theorem write?_eq_some :
    disk.write? path text = some after ↔ ∃ names, disk.target? path = some names ∧
      after = { disk with root := Node.put (.file text.toUTF8) names disk.root } := by
  rw [write?]
  cases disk.target? path with
  | none => simp
  | some names => simp [eq_comm]

/-- Writing to a path changes the one place to which it leads. -/
theorem Targets.wrote (targets : disk.Targets path parent name) (content : ByteArray) :
    Wrote disk { disk with root := Node.put (.file content) (parent ++ [name]) disk.root }
      (parent ++ [name]) content where
  here := rfl
  file := Node.occupant?_file.2 (Node.at?_put_self targets.directory)
  others _ different :=
    Node.occupant?_put_other targets.directory targets.free content different

namespace Wrote

variable {before : Disk}

theorem origin (wrote : Wrote before after names content) (path : String) :
    after.origin path = before.origin path := by
  rw [Disk.origin, wrote.here, Disk.origin]

/-- Every directory of the old tree is one of the new tree. -/
theorem directories (wrote : Wrote before after names content)
    (free : before.root.occupant? names ≠ some .directory) (place : List String)
    (directory : before.root.occupant? place = some .directory) :
    after.root.occupant? place = some .directory := by
  rw [wrote.others place (fun same => free (same ▸ directory)), directory]

theorem present (wrote : Wrote before after names content) (place : List String)
    (present : (before.root.occupant? place).isSome) : (after.root.occupant? place).isSome := by
  by_cases same : place = names
  · rw [same, wrote.file]
    rfl
  · rwa [wrote.others place same]

/-- A path that has led somewhere leads there still. -/
theorem follow (wrote : Wrote before after names content)
    (free : before.root.occupant? names ≠ some .directory) {start : List String}
    (led : follow before.root start steps = some place) :
    Disk.follow after.root start steps = some place :=
  follow_mono (wrote.directories free) wrote.present led

theorem locate? (wrote : Wrote before after names content)
    (free : before.root.occupant? names ≠ some .directory)
    (led : before.locate? path = some place) : after.locate? path = some place := by
  rw [Disk.locate?] at led ⊢
  rw [wrote.origin]
  by_cases short : isPath path = true
  · rw [if_pos short] at led ⊢
    exact wrote.follow free led
  · rw [if_neg short] at led
    cases led

/-- The place that has been written is written again under the same path. -/
theorem targets (wrote : Wrote before after (parent ++ [name]) content)
    (targets : before.Targets path parent name) : after.Targets path parent name where
  last := targets.last
  isPath := targets.isPath
  isEntryName := targets.isEntryName
  led := by
    rw [wrote.origin]
    exact wrote.follow targets.free targets.led
  directory := wrote.directories targets.free parent targets.directory
  free := by
    rw [wrote.file]
    exact fun same => nomatch same

/-- The path leads to what has been written. -/
theorem located (wrote : Wrote before after (parent ++ [name]) content)
    (targets : before.Targets path parent name) :
    after.locate? path = some (parent ++ [name]) := by
  have again := wrote.targets targets
  have named := again.isEntryName
  simp only [isEntryName, Bool.and_eq_true, decide_eq_true_eq] at named
  have split := List.dropLast_append_getLast? name targets.last
  rw [Disk.locate?, if_pos targets.isPath, ← split, follow_append]
  refine ⟨parent, again.led, ?_⟩
  rw [follow_cons_eq_some, if_neg (not_or.2 ⟨named.1.1.1, named.1.1.2⟩), if_neg named.1.2,
    wrote.file]
  exact ⟨again.directory, rfl, rfl⟩

/-- The text of a file elsewhere is the same. -/
theorem text? (wrote : Wrote before after names content)
    (free : before.root.occupant? names ≠ some .directory) (read : before.text? path = some text)
    (elsewhere : before.locate? path ≠ some names) : after.text? path = some text := by
  rcases text?_eq_some.1 read with ⟨place, held, led, file, decoded⟩
  have different : place ≠ names := by
    rintro rfl
    exact elsewhere led
  exact text?_eq_some.2 ⟨place, held, wrote.locate? free led,
    (wrote.others place different).trans file, decoded⟩

end Wrote

end Disk

end PersistedDocuments
