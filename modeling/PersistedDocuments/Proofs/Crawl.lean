import Mathlib.Data.List.Forall2
import PersistedDocuments.Extraction

/-!
# What a run finds

The messages that a run writes have no influence on what it finds: it reads the files that are
selected, in the order of the walk, and fails at the first that it cannot read.
-/

namespace PersistedDocuments

variable {α β : Type}

namespace Run

/-- The run ends in this way, whatever has been written before. -/
def Ends (run : Run α) (outcome : Except Trouble α) : Prop :=
  ∀ messages, (ExceptT.run run messages).1 = outcome

/-- A run ends in one way. -/
theorem Ends.iff_eq {run : Run α} {outcome other : Except Trouble α} (ends : Ends run outcome) :
    Ends run other ↔ outcome = other :=
  ⟨fun again => (ends []).symm.trans (again []), fun same => same ▸ ends⟩

theorem ends_pure (value : α) : Ends (pure value) (.ok value) := fun _ => rfl

theorem ends_throw (trouble : Trouble) : Ends (throw trouble : Run α) (.error trouble) :=
  fun _ => rfl

theorem ends_log (level : LogLevel) (text : String) (fields : List (String × String)) :
    Ends (Run.log level text fields) (.ok ()) := fun _ => rfl

theorem ends_lift (outcome : Except Trouble α) : Ends (liftM outcome : Run α) outcome := by
  intro messages
  cases outcome <;> rfl

theorem bind_run (first : Run α) (next : α → Run β) (messages : List Message) :
    ExceptT.run (first >>= next) messages =
      ExceptT.bindCont next (ExceptT.run first messages).1 (ExceptT.run first messages).2 := rfl

theorem Ends.bind_error {first : Run α} {trouble : Trouble} (ends : Ends first (.error trouble))
    {next : α → Run β} : Ends (first >>= next) (.error trouble) := by
  intro messages
  rw [bind_run, ends messages]
  rfl

theorem Ends.bind_ok {first : Run α} {value : α} (ends : Ends first (.ok value))
    {next : α → Run β} {outcome : Except Trouble β} (later : Ends (next value) outcome) :
    Ends (first >>= next) outcome := by
  intro messages
  rw [bind_run, ends messages]
  exact later _

theorem Ends.bind {first : Run α} {outcome : Except Trouble α} (ends : Ends first outcome)
    {next : α → Run β} {continuation : α → Except Trouble β}
    (later : ∀ value, Ends (next value) (continuation value)) :
    Ends (first >>= next) (outcome >>= continuation) := by
  cases outcome with
  | error trouble => exact ends.bind_error
  | ok value => exact ends.bind_ok (later value)

/-- A message first makes no difference. -/
theorem Ends.afterLog {run : Run α} {outcome : Except Trouble α} (ends : Ends run outcome)
    {level : LogLevel} {text : String} {fields : List (String × String)} :
    Ends (Run.log level text fields >>= fun _ => run) outcome :=
  (ends_log level text fields).bind fun _ => ends

theorem Ends.map {run : Run α} {outcome : Except Trouble α} (ends : Ends run outcome)
    (change : α → β) : Ends (change <$> run) (outcome.map change) := by
  rw [map_eq_pure_bind]
  have mapped := ends.bind fun value => ends_pure (change value)
  cases outcome with
  | error trouble => exact mapped
  | ok value => exact mapped

theorem Ends.mapM {read : α → Run β} {outcome : α → Except Trouble β}
    (each : ∀ item, Ends (read item) (outcome item)) (items : List α) :
    Ends (items.mapM read) (items.mapM outcome) := by
  induction items with
  | nil => exact ends_pure _
  | cons item rest ih =>
      rw [List.mapM_cons, List.mapM_cons]
      exact (each item).bind fun first => ih.bind fun others => ends_pure (first :: others)

/-- The run ends in this way and writes these messages. -/
def Does (run : Run α) (outcome : Except Trouble α) (written : List Message) : Prop :=
  ∀ messages, ExceptT.run run messages = (outcome, messages ++ written)

variable {first : Run α} {next : α → Run β} {written others : List Message} {trouble : Trouble}

theorem Does.ends {outcome : Except Trouble α} (does : Does first outcome written) :
    Ends first outcome := by
  intro messages
  rw [does messages]

theorem does_pure (value : α) : Does (pure value) (.ok value) [] := by
  intro messages
  rw [List.append_nil]
  rfl

theorem does_throw (trouble : Trouble) : Does (throw trouble : Run α) (.error trouble) [] := by
  intro messages
  rw [List.append_nil]
  rfl

theorem does_log (level : LogLevel) (text : String) (fields : List (String × String)) :
    Does (Run.log level text fields) (.ok ()) [⟨level, text, fields⟩] := fun _ => rfl

theorem Does.bind_ok {value : α} (does : Does first (.ok value) written)
    {outcome : Except Trouble β} (later : Does (next value) outcome others) :
    Does (first >>= next) outcome (written ++ others) := by
  intro messages
  rw [bind_run, does messages, ← List.append_assoc]
  exact later _

theorem Does.bind_error (does : Does first (.error trouble) written) :
    Does (first >>= next) (.error trouble) written := by
  intro messages
  rw [bind_run, does messages]
  rfl

theorem Does.map {outcome : Except Trouble α} (does : Does first outcome written)
    (change : α → β) : Does (change <$> first) (outcome.map change) written := by
  rw [map_eq_pure_bind]
  cases outcome with
  | error trouble => exact does.bind_error
  | ok value =>
      rw [← List.append_nil written]
      exact does.bind_ok (does_pure _)

section

variable {read : α → Run β} {note : α → Message} {items : List α} {results : List β}

/-- Items that are all read, with a message for each. -/
theorem Does.mapM (each : List.Forall₂ (fun item result => (read item).Does (.ok result) [note item])
    items results) : Does (items.mapM read) (.ok results) (items.map note) := by
  induction each with
  | nil => exact does_pure _
  | cons first _ ih =>
      rw [List.mapM_cons, List.map_cons, ← List.singleton_append, ← List.append_nil (List.map _ _)]
      exact first.bind_ok (ih.bind_ok (does_pure _))

/-- The first item that cannot be read ends the run. -/
theorem Does.mapM_error
    (each : List.Forall₂ (fun item result => (read item).Does (.ok result) [note item])
      items results) {item : α} (fails : (read item).Does (.error trouble) [note item])
    (after : List α) :
    Does ((items ++ item :: after).mapM read) (.error trouble) ((items ++ [item]).map note) := by
  induction each with
  | nil =>
      rw [List.nil_append, List.mapM_cons]
      exact fails.bind_error
  | cons first _ ih =>
      rw [List.cons_append, List.mapM_cons, List.cons_append, List.map_cons,
        ← List.singleton_append]
      exact first.bind_ok ih.bind_error

end

end Run

/-- The text of bytes that have been made of a text. -/
theorem fromUTF8?_toUTF8 (text : String) : String.fromUTF8? text.toUTF8 = some text := by
  have valid : text.toUTF8.IsValidUTF8 := text.isValidUTF8
  rw [String.fromUTF8?, dif_pos valid]
  rfl

/-- The message that a file is being read. -/
def File.announcement (file : File) : Message := ⟨.debug, "reading file", [("path", file.path)]⟩

namespace Settings

variable (settings : Settings)

/-- The documents in a file, or why they cannot be read. -/
def fileText (file : File) : Except Trouble String :=
  match file.text? with
  | none => .error (.unreadable file.path)
  | some text =>
    if settings.js then
      (Embedded.embeddedText text settings.literalTag).mapError (.badLiterals file.path)
    else .ok text

/-- The text that has been written to a file is read from it. -/
theorem fileText_toUTF8 (plain : settings.js = false) {path : String} (short : isPath path = true)
    (text : String) : settings.fileText ⟨path, text.toUTF8⟩ = .ok text := by
  rw [fileText, File.text?, if_pos short, fromUTF8?_toUTF8]
  dsimp only
  rw [plain, if_neg Bool.false_ne_true]

/-- The file, if it is one that is read. -/
def chosen? : Visit → Option File
  | .file file => if settings.selects file then some file else none
  | .closed _ => none

/-- The documents in each of the files that are read at and below a path, in the order of the
walk. -/
def texts (disk : Disk) (input : String) : Except Trouble (List String) :=
  match disk.find? input with
  | none => .error (.missingInput input)
  | some node => ((node.walk input).filterMap settings.chosen?).mapM settings.fileText

/-- A file that is read is announced, whatever comes of it. -/
theorem does_readFile (file : File) :
    (settings.readFile file).Does (settings.fileText file) [file.announcement] := by
  rw [readFile, fileText, ← List.append_nil [file.announcement]]
  refine (Run.does_log _ _ _).bind_ok ?_
  cases file.text? with
  | none => exact Run.does_throw _
  | some text =>
      dsimp only
      split
      · cases Embedded.embeddedText text settings.literalTag with
        | ok found => exact Run.does_pure _
        | error failure => exact Run.does_throw _
      · exact Run.does_pure _

/-- The documents in what a walk comes upon, if it is a file that is read. -/
def visitText (visit : Visit) : Except Trouble (Option String) :=
  match settings.chosen? visit with
  | none => .ok none
  | some file => (settings.fileText file).map some

theorem ends_readVisit (visit : Visit) :
    (settings.readVisit visit).Ends (settings.visitText visit) := by
  cases visit with
  | closed path => exact (Run.ends_pure none).afterLog
  | file file =>
      rw [readVisit, visitText, chosen?]
      split
      · exact (settings.does_readFile file).ends.map some
      · exact Run.ends_pure none

/-- Nothing but the files that are read gives a text. -/
theorem mapM_visitText (visits : List Visit) :
    (visits.mapM settings.visitText).map (List.filterMap id) =
      (visits.filterMap settings.chosen?).mapM settings.fileText := by
  induction visits with
  | nil => rfl
  | cons visit rest ih =>
      rw [List.mapM_cons, visitText, List.filterMap_cons]
      cases settings.chosen? visit with
      | none =>
          rw [← ih]
          cases rest.mapM settings.visitText <;> rfl
      | some file =>
          dsimp only
          rw [List.mapM_cons, ← ih]
          cases settings.fileText file with
          | error trouble => rfl
          | ok text => cases rest.mapM settings.visitText <;> rfl

theorem ends_readInput (disk : Disk) (input : String) :
    (settings.readInput disk input).Ends
      ((settings.texts disk input).map ("\n".intercalate ·)) := by
  rw [readInput, texts]
  cases disk.find? input with
  | none => exact Run.ends_throw _
  | some node =>
      have walked := (Run.Ends.mapM settings.ends_readVisit (node.walk input)).map
        fun texts => "\n".intercalate (texts.filterMap id)
      have same : ((node.walk input).mapM settings.visitText).map
          (fun texts => "\n".intercalate (texts.filterMap id)) =
          (((node.walk input).filterMap settings.chosen?).mapM settings.fileText).map
            ("\n".intercalate ·) := by
        rw [← mapM_visitText]
        cases (node.walk input).mapM settings.visitText <;> rfl
      rw [same, map_eq_pure_bind] at walked
      dsimp only
      split
      · exact walked.afterLog
      · exact walked

/-- The manifest of the texts, read as one document with a line feed between each two, or why there
is none. -/
def extraction (disk : Disk) (input : String) : Except Trouble Manifest := do
  let texts ← settings.texts disk input
  ((Builder.new settings.pipeline).addSource ("\n".intercalate texts)).map Builder.manifest
    |>.mapError (.badDocuments input)

variable {settings} in
theorem extraction_of_addSource {disk : Disk} {input : String} {texts : List String}
    {builder : Builder} (found : settings.texts disk input = .ok texts)
    (added : (Builder.new settings.pipeline).addSource ("\n".intercalate texts) = .ok builder) :
    settings.extraction disk input = .ok builder.manifest := by
  rw [extraction, found]
  change ((Builder.addSource _ _).map _ |>.mapError _) = _
  rw [added]
  rfl

theorem ends_extract (disk : Disk) (input : String) :
    (settings.extract disk input).Ends (settings.extraction disk input) := by
  have read := settings.ends_readInput disk input
  rw [extract, extraction]
  cases found : settings.texts disk input with
  | error trouble =>
      rw [found] at read
      exact read.bind_error
  | ok texts =>
      rw [found] at read
      refine read.bind_ok ?_
      change Run.Ends _ (((Builder.new settings.pipeline).addSource _).map _ |>.mapError _)
      cases (Builder.new settings.pipeline).addSource ("\n".intercalate texts) with
      | ok builder => exact Run.ends_pure _
      | error failure => exact Run.ends_throw _

end Settings

end PersistedDocuments
