import Mathlib
import PersistedDocuments.Execution
import PersistedDocuments.Proofs.Manifest.Collection
import PersistedDocuments.Proofs.Outcome
import PersistedDocuments.Proofs.Walk

/-!
# What a run leaves behind

A run writes the manifest of the documents that it has found to the path of its output, or it leaves
the disk as it is. A manifest that is neither the settings file of the run nor one of the files that
it reads does not change what the same run does afterwards: it writes the same manifest again.
-/

namespace PersistedDocuments

open Toml

/-! ## The path of the output -/

namespace Settings

/-- The settings that the value of `extract` gives, by their names. -/
def entriesOf? : Value → Option Entries
  | .table _ entries => some entries
  | .array items => some (names.zip items)
  | _ => none

/-- The settings that a settings file gives, by their names. -/
def entries? (text : String) : Option Entries := do
  match ← Toml.read? text with
  | [] => return []
  | [("extract", value)] => entriesOf? value
  | _ => none

theorem ofValue?_eq (value : Value) : ofValue? value = (entriesOf? value).bind default.setAll := by
  cases value <;> rfl

theorem ofToml?_eq (text : String) : ofToml? text = (entries? text).bind default.setAll := by
  rw [ofToml?, entries?]
  cases Toml.read? text with
  | none => rfl
  | some found =>
      simp only [Option.bind_eq_bind, Option.bind_some]
      split
      · rfl
      · exact ofValue?_eq _
      · simp

/-- The path that an entry gives for the output. -/
def entryOutput? : String × Value → Option String
  | ("output", .string text) => some text
  | _ => none

/-- The path that entries give for the output, the last one if there are several. -/
def namedOutput? (entries : Entries) : Option String := entries.reverse.findSome? entryOutput?

theorem set_output {settings result : Settings} {name : String} {value : Value}
    (done : settings.set name value = some result) :
    result.output = (entryOutput? (name, value)).getD settings.output := by
  rw [set.eq_def] at done
  split at done
  all_goals cases done
  all_goals rfl

theorem setAll_output {settings result : Settings} {entries : Entries}
    (done : settings.setAll entries = some result) :
    result.output = (namedOutput? entries).getD settings.output := by
  induction entries generalizing settings with
  | nil =>
      cases done
      rfl
  | cons entry rest ih =>
      rcases Option.bind_eq_some_iff.1 done with ⟨next, first, later⟩
      rw [ih later, set_output first, namedOutput?, namedOutput?, List.reverse_cons,
        List.findSome?_append, List.findSome?_singleton]
      cases rest.reverse.findSome? entryOutput? <;> rfl

end Settings

/-- The path of the output: that of the arguments, else that of the settings file, else the default.
-/
def Arguments.outputPath (arguments : Arguments) (disk : Disk) : String :=
  let configured : Option String := do
    let text ← disk.text? (← arguments.config)
    Settings.namedOutput? (← Settings.entries? text)
  (arguments.output.or configured).getD Settings.default.output

theorem Arguments.settings_output {arguments : Arguments} {disk : Disk} {settings : Settings}
    (configured : arguments.settings disk = .ok settings) :
    settings.output = arguments.outputPath disk := by
  have choice (named : Option String) :
      arguments.output.getD (named.getD Settings.default.output) =
        (arguments.output.or named).getD Settings.default.output := by
    cases arguments.output <;> rfl
  rw [Arguments.settings] at configured
  rw [outputPath]
  split at configured
  · next config =>
      cases configured
      rw [config]
      exact choice none
  · next path config =>
      split at configured
      · cases configured
      · next text read =>
          split at configured
          · cases configured
          · next base accepted =>
              cases configured
              rw [Settings.ofToml?_eq] at accepted
              rcases Option.bind_eq_some_iff.1 accepted with ⟨entries, given, set⟩
              rw [config]
              simp only [Option.bind_eq_bind, Option.bind_some, read, given]
              rw [← choice, ← Settings.setAll_output set]
              rfl

/-! ## The end of a run -/

/-- What is written of a manifest, or why it cannot be written. -/
def Settings.delivery (settings : Settings) (disk : Disk) (manifest : Manifest) :
    Except Trouble Written :=
  match disk.write? settings.output manifest.write with
  | none => .error (.unwritable settings.output)
  | some after => .ok ⟨settings.output, manifest.write, after⟩

/-- What a run writes, or why it writes nothing. -/
def Arguments.result (arguments : Arguments) (disk : Disk) : Except Trouble Written := do
  let settings ← arguments.settings disk
  settings.delivery disk (← settings.extraction disk arguments.input)

theorem Arguments.ends_execute (arguments : Arguments) (disk : Disk) :
    (arguments.execute disk).Ends (arguments.result disk) := by
  rw [execute, result]
  apply Run.Ends.afterLog
  apply (Run.ends_lift _).bind
  intro settings
  have delivered (manifest : Manifest) : @Run.Ends Written
      (match disk.write? settings.output manifest.write with
        | none => throw (.unwritable settings.output)
        | some after => do
          Run.log .info ("Wrote output file to " ++ settings.output ++ ".")
            [("queries", toString manifest.size)]
          return ⟨settings.output, manifest.write, after⟩)
      (settings.delivery disk manifest) := by
    rw [Settings.delivery]
    cases disk.write? settings.output manifest.write with
    | none => exact Run.ends_throw _
    | some after => exact (Run.ends_pure _).afterLog
  have extracted := (settings.ends_extract disk arguments.input).bind delivered
  dsimp only
  split
  · exact extracted.afterLog
  · exact extracted

/-- The disk after a run that ends in this way. -/
def Disk.afterResult (before : Disk) : Except Trouble Written → Disk
  | .ok written => written.disk
  | .error _ => before

/-- The exit code of a run that ends in this way. -/
def exitCodeOf {α : Type} : Except Trouble α → Nat
  | .ok _ => 0
  | .error trouble => trouble.exitCode

theorem Trouble.exitCode_ne_zero (trouble : Trouble) : trouble.exitCode ≠ 0 := by
  unfold exitCode
  split <;> decide

/-- How a run with arguments that are in order ends. -/
theorem execute_of_read {environment : Environment} {texts : List String} {arguments : Arguments}
    (read : Arguments.read environment texts = .ok arguments) (disk : Disk) :
    (execute environment texts disk).exitCode = exitCodeOf (arguments.result disk) ∧
      (execute environment texts disk).disk disk = disk.afterResult (arguments.result disk) := by
  have ends : ((arguments.execute disk).run.run []).1 = arguments.result disk :=
    arguments.ends_execute disk []
  rw [execute, read]
  dsimp only
  rw [← ends]
  cases (arguments.execute disk).run.run [] with
  | mk result messages =>
    cases result with
    | ok written => exact ⟨rfl, rfl⟩
    | error trouble => exact ⟨rfl, rfl⟩

/-- What a run can come to: it is only asked for a text, it fails, or it writes. -/
theorem execute_cases (environment : Environment) (texts : List String) (before : Disk) :
    ((execute environment texts before).exitCode = 0 ∧
      (Arguments.read environment texts = .error .help ∨
        Arguments.read environment texts = .error .version) ∧
      (execute environment texts before).disk before = before) ∨
    ((execute environment texts before).exitCode ≠ 0 ∧
      (execute environment texts before).disk before = before) ∨
    ∃ arguments written, Arguments.read environment texts = .ok arguments ∧
      arguments.result before = .ok written ∧
      (execute environment texts before).exitCode = 0 ∧
      (execute environment texts before).disk before = written.disk := by
  cases read : Arguments.read environment texts with
  | error mistake =>
      rw [execute, read]
      cases mistake with
      | help => exact .inl ⟨rfl, .inl rfl, rfl⟩
      | version => exact .inl ⟨rfl, .inr rfl, rfl⟩
      | _ => exact .inr (.inl ⟨Nat.succ_ne_zero 1, rfl⟩)
  | ok arguments =>
      have ⟨code, left⟩ := execute_of_read read before
      rw [code, left]
      cases result : arguments.result before with
      | error trouble => exact .inr (.inl ⟨trouble.exitCode_ne_zero, rfl⟩)
      | ok written => exact .inr (.inr ⟨arguments, written, rfl, result, rfl, rfl⟩)

/-! ## Running in place -/

/-- A run that works on a disk in place. A later failure takes nothing back. -/
abbrev Session := ExceptT Trouble (StateT Disk (StateM (List Message)))

namespace Session

variable {α β : Type} {before middle after : Disk}

/-- A step that looks at the disk. -/
def look (run : Disk → Run α) : Session α := fun disk messages =>
  let (outcome, messages) := (run disk).run messages
  ((outcome, disk), messages)

/-- A step that writes a text to a path. -/
def write (path text : String) : Session Unit := do
  match (← get).write? path text with
  | none => throw (.unwritable path)
  | some after => set after

/-- A session on one disk ends in this way and leaves the other disk, whatever has been written to
the log before. -/
def Leaves (session : Session α) (before : Disk) (outcome : Except Trouble α) (after : Disk) :
    Prop :=
  ∀ messages, (session.run before messages).1 = (outcome, after)

theorem leaves_look {run : Disk → Run α} {outcome : Except Trouble α}
    (ends : (run before).Ends outcome) : (look run).Leaves before outcome before :=
  fun messages => congrArg (·, before) (ends messages)

theorem run_write (path text : String) (messages : List Message) :
    (write path text).run before messages =
      ExceptT.run (match before.write? path text with
        | none => throw (.unwritable path)
        | some after => set after : Session Unit) before messages := rfl

theorem leaves_write_of_none {path text : String} (failed : before.write? path text = none) :
    (write path text).Leaves before (.error (.unwritable path)) before := by
  intro messages
  rw [run_write, failed]
  rfl

theorem leaves_write_of_some {path text : String} (wrote : before.write? path text = some after) :
    (write path text).Leaves before (.ok ()) after := by
  intro messages
  rw [run_write, wrote]
  rfl

theorem run_bind (first : Session α) (next : α → Session β) (messages : List Message) :
    (first >>= next).run before messages =
      ExceptT.bindCont next (first.run before messages).1.1 (first.run before messages).1.2
        (first.run before messages).2 := rfl

theorem Leaves.bind_ok {first : Session α} {value : α}
    (leaves : first.Leaves before (.ok value) middle) {next : α → Session β}
    {outcome : Except Trouble β} (later : (next value).Leaves middle outcome after) :
    (first >>= next).Leaves before outcome after := by
  intro messages
  rw [run_bind, leaves messages]
  exact later _

theorem Leaves.bind_error {first : Session α} {trouble : Trouble}
    (leaves : first.Leaves before (.error trouble) after) {next : α → Session β} :
    (first >>= next).Leaves before (.error trouble) after := by
  intro messages
  rw [run_bind, leaves messages]
  rfl

end Session

open Session

/-- Extracts with settings and writes the manifest, on the disk itself. -/
def Settings.perform (settings : Settings) (input : String) : Session Unit := do
  let manifest ← look fun disk => settings.extract disk input
  write settings.output manifest.write
  look fun _ => Run.log .info ("Wrote output file to " ++ settings.output ++ ".")
    [("queries", toString manifest.size)]

/-- A run with arguments that are in order, on the disk itself. -/
def Arguments.perform (arguments : Arguments) : Session Unit := do
  look fun _ => Run.log .debug versionText
  let settings ← look fun disk => liftM (arguments.settings disk)
  if settings.addTypename then
    look fun _ => Run.log .info "Using the add-typename query transformer."
  settings.perform arguments.input

theorem Session.leaves_log (level : LogLevel) (text : String) (fields : List (String × String))
    (disk : Disk) : (look fun _ => Run.log level text fields).Leaves disk (.ok ()) disk :=
  leaves_look (Run.ends_log level text fields)

theorem Settings.leaves_perform (settings : Settings) (disk : Disk) (input : String) :
    (settings.perform input).Leaves disk
      ((settings.extraction disk input >>= settings.delivery disk).map fun _ => ())
      (disk.afterResult (settings.extraction disk input >>= settings.delivery disk)) := by
  have extracted : (look fun disk => settings.extract disk input).Leaves disk
      (settings.extraction disk input) disk := leaves_look (settings.ends_extract disk input)
  cases found : settings.extraction disk input with
  | error trouble =>
      rw [found] at extracted
      exact extracted.bind_error
  | ok manifest =>
      rw [found] at extracted
      apply extracted.bind_ok
      have delivered : (Except.ok manifest : Except Trouble Manifest) >>= settings.delivery disk =
          settings.delivery disk manifest := rfl
      rw [delivered, delivery]
      cases wrote : disk.write? settings.output manifest.write with
      | none => exact (leaves_write_of_none wrote).bind_error
      | some after => exact (leaves_write_of_some wrote).bind_ok (leaves_log _ _ _ _)

/-- Working in place comes to the same. -/
theorem Arguments.leaves_perform (arguments : Arguments) (disk : Disk) :
    arguments.perform.Leaves disk ((arguments.result disk).map fun _ => ())
      (disk.afterResult (arguments.result disk)) := by
  have configured : (look fun disk => liftM (arguments.settings disk)).Leaves disk
      (arguments.settings disk) disk := leaves_look (Run.ends_lift _)
  rw [result]
  apply (leaves_log _ _ _ _).bind_ok
  cases found : arguments.settings disk with
  | error trouble =>
      rw [found] at configured
      exact configured.bind_error
  | ok settings =>
      rw [found] at configured
      apply configured.bind_ok
      have performed := settings.leaves_perform disk arguments.input
      dsimp only
      split
      · exact (leaves_log _ _ _ _).bind_ok performed
      · exact performed

/-- A run of the program on the disk itself: its exit code and the disk that it leaves. -/
def executeInPlace (environment : Environment) (texts : List String) (disk : Disk) : Nat × Disk :=
  match Arguments.read environment texts with
  | .error .help => (0, disk)
  | .error .version => (0, disk)
  | .error _ => (2, disk)
  | .ok arguments =>
    let (result, after) := (arguments.perform.run disk []).1
    (exitCodeOf result, after)

theorem executeInPlace_eq (environment : Environment) (texts : List String) (disk : Disk) :
    executeInPlace environment texts disk =
      ((execute environment texts disk).exitCode, (execute environment texts disk).disk disk) := by
  cases read : Arguments.read environment texts with
  | error mistake =>
      rw [executeInPlace, execute, read]
      cases mistake <;> rfl
  | ok arguments =>
      have ⟨code, left⟩ := execute_of_read read disk
      have leaves := arguments.leaves_perform disk []
      rw [code, left, executeInPlace, read]
      change (exitCodeOf (arguments.perform.run disk []).1.1,
        (arguments.perform.run disk []).1.2) = _
      rw [leaves]
      cases arguments.result disk <;> rfl

/-! ## One manifest or nothing -/

/-- A run with arguments has written a manifest of what it has found. -/
structure Arguments.Delivered (arguments : Arguments) (before after : Disk) (settings : Settings)
    (manifest : Manifest) (names : List String) : Prop where
  configured : arguments.settings before = .ok settings
  output : settings.output = arguments.outputPath before
  extracted : (settings.extract before arguments.input).Ends (.ok manifest)
  target : before.target? settings.output = some names
  located : after.locate? settings.output = some names
  wrote : Disk.Wrote before after names manifest.write.toUTF8

/-- What a run writes is neither its settings file nor one of the files that it reads. -/
structure Arguments.ReadsElsewhere (arguments : Arguments) (disk : Disk) (settings : Settings)
    (names : List String) : Prop where
  config : ∀ path, arguments.config = some path → disk.locate? path ≠ some names
  input : ∀ place, disk.locate? arguments.input = some place → place <+: names →
    settings.Skips (fileName settings.output)

namespace Arguments

variable {arguments : Arguments} {before after : Disk} {settings : Settings} {manifest : Manifest}
variable {names : List String} {written : Written}

theorem result_eq_ok :
    arguments.result before = .ok written ↔ ∃ settings manifest after,
      arguments.settings before = .ok settings ∧
      settings.extraction before arguments.input = .ok manifest ∧
      before.write? settings.output manifest.write = some after ∧
      ⟨settings.output, manifest.write, after⟩ = written := by
  simp only [result, bind_eq_ok, Settings.delivery]
  constructor
  · rintro ⟨settings, configured, manifest, extraction, delivery⟩
    cases wrote : before.write? settings.output manifest.write with
    | none =>
        rw [wrote] at delivery
        cases delivery
    | some after =>
        rw [wrote] at delivery
        exact ⟨settings, manifest, after, configured, extraction, wrote, Except.ok.inj delivery⟩
  · rintro ⟨settings, manifest, after, configured, extraction, wrote, rfl⟩
    exact ⟨settings, configured, manifest, extraction, by rw [wrote]⟩

theorem exists_delivered (configured : arguments.settings before = .ok settings)
    (extraction : settings.extraction before arguments.input = .ok manifest)
    (wrote : before.write? settings.output manifest.write = some after) :
    ∃ names, arguments.Delivered before after settings manifest names := by
  rcases Disk.write?_eq_some.1 wrote with ⟨names, target, rfl⟩
  rcases Disk.exists_targets target with ⟨parent, name, rfl, targets⟩
  have extracted := settings.ends_extract before arguments.input
  rw [extraction] at extracted
  have changed := targets.wrote manifest.write.toUTF8
  exact ⟨parent ++ [name], configured, settings_output configured, extracted, target,
    changed.located targets, changed⟩

/-- A run writes if it has settings, finds a manifest and can write to the path of its output. -/
theorem exists_result (configured : arguments.settings before = .ok settings)
    (extracted : (settings.extract before arguments.input).Ends (.ok manifest))
    (target : before.target? settings.output = some names) :
    ∃ written, arguments.result before = .ok written := by
  have extraction : settings.extraction before arguments.input = .ok manifest :=
    (settings.ends_extract before arguments.input []).symm.trans (extracted [])
  exact ⟨_, result_eq_ok.2 ⟨settings, manifest, _, configured, extraction,
    Disk.write?_eq_some.2 ⟨names, target, rfl⟩, rfl⟩⟩

/-- A run has the same settings after a write to another file than its settings file. -/
theorem settings_of_wrote {content : ByteArray} (wrote : Disk.Wrote before after names content)
    (free : before.root.occupant? names ≠ some .directory)
    (elsewhere : ∀ path, arguments.config = some path → before.locate? path ≠ some names)
    (configured : arguments.settings before = .ok settings) :
    arguments.settings after = .ok settings := by
  rw [Arguments.settings] at configured ⊢
  cases config : arguments.config with
  | none =>
      rw [config] at configured
      exact configured
  | some path =>
      rw [config] at configured
      dsimp only at configured ⊢
      cases read : before.text? path with
      | none =>
          rw [read] at configured
          cases configured
      | some text =>
          rw [read] at configured
          rw [wrote.text? free read (elsewhere path config)]
          exact configured

/-- On the disk that it leaves, a run that reads elsewhere comes to the same and changes nothing. -/
theorem result_of_readsElsewhere (configured : arguments.settings before = .ok settings)
    (extraction : settings.extraction before arguments.input = .ok manifest)
    (wrote : before.write? settings.output manifest.write = some after)
    (target : before.target? settings.output = some names)
    (elsewhere : arguments.ReadsElsewhere before settings names) :
    arguments.result after = .ok ⟨settings.output, manifest.write, after⟩ := by
  rcases Disk.write?_eq_some.1 wrote with ⟨written, writtenTarget, rfl⟩
  cases target.symm.trans writtenTarget
  rcases Disk.exists_targets target with ⟨parent, name, rfl, targets⟩
  have changed := targets.wrote manifest.write.toUTF8
  rcases bind_eq_ok.1 extraction with ⟨texts, found, built⟩
  have foundAfter := Settings.texts_of_targets targets manifest.write.toUTF8 found
    fun place led within => targets.fileName_eq ▸ elsewhere.input place led within
  have configuredAfter := settings_of_wrote changed targets.free elsewhere.config configured
  -- What is written now stands there already.
  have writtenAfter := Disk.write?_eq_some.2
    ⟨_, (changed.targets targets).target?, by
      rw [Node.put_of_at? (Node.occupant?_file.1 changed.file)]⟩
  exact result_eq_ok.2 ⟨settings, manifest, _, configuredAfter,
    bind_eq_ok.2 ⟨texts, foundAfter, built⟩, writtenAfter, rfl⟩

end Arguments

/-- A run that fails, or is asked for help or the version, leaves the disk as it is. Any other run
writes one file, the manifest of what it has found, and the same run on the disk that it leaves
changes nothing if it does not read that file. A run that finds a manifest and can write it does not
fail. -/
theorem execute_disk (environment : Environment) (texts : List String) (before : Disk) :
    let outcome := execute environment texts before
    let after := outcome.disk before
    let asks := Arguments.read environment texts = .error .help ∨
      Arguments.read environment texts = .error .version
    executeInPlace environment texts before = (outcome.exitCode, after) ∧
    (outcome.exitCode ≠ 0 ∨ asks → after = before) ∧
    (outcome.exitCode = 0 → ¬asks → ∃ arguments settings manifest names,
      Arguments.read environment texts = .ok arguments ∧
      arguments.Delivered before after settings manifest names ∧
      (arguments.ReadsElsewhere before settings names →
        (execute environment texts after).exitCode = 0 ∧
        (execute environment texts after).disk after = after)) ∧
    ∀ arguments settings manifest names, Arguments.read environment texts = .ok arguments →
      arguments.settings before = .ok settings →
      (settings.extract before arguments.input).Ends (.ok manifest) →
      before.target? settings.output = some names → outcome.exitCode = 0 := by
  intro outcome after asks
  refine ⟨executeInPlace_eq environment texts before, ?_, ?_, ?_⟩
  · intro reason
    rcases execute_cases environment texts before with
      ⟨_, _, same⟩ | ⟨_, same⟩ | ⟨arguments, written, read, _, succeeded, _⟩
    · exact same
    · exact same
    · rcases reason with failed | help | version
      · exact absurd succeeded failed
      · cases read.symm.trans help
      · cases read.symm.trans version
  · intro succeeded unasked
    rcases execute_cases environment texts before with
      ⟨_, asked, _⟩ | ⟨failed, _⟩ | ⟨arguments, written, read, result, _, left⟩
    · exact absurd asked unasked
    · exact absurd succeeded failed
    · rcases Arguments.result_eq_ok.1 result with
        ⟨settings, manifest, changed, configured, extraction, wrote, rfl⟩
      rcases Arguments.exists_delivered configured extraction wrote with ⟨names, delivered⟩
      have same : after = changed := left
      rw [same]
      refine ⟨arguments, settings, manifest, names, read, delivered, fun elsewhere => ?_⟩
      have again := Arguments.result_of_readsElsewhere configured extraction wrote
        delivered.target elsewhere
      have ⟨code, kept⟩ := execute_of_read read changed
      rw [again] at code kept
      exact ⟨code, kept⟩
  · intro arguments settings manifest names read configured extracted target
    rcases Arguments.exists_result configured extracted target with ⟨written, result⟩
    have ⟨code, _⟩ := execute_of_read read before
    rw [result] at code
    exact code

/-- A manifest with one query is written over an older one below the input, and the same run writes
it again. -/
theorem execute_disk_of_older :
    let before : Disk := ⟨.directory [("d", .directory
      [("map.json", .file "\x7b\x7d".toUTF8), ("a.graphql", .file "\x7ba\x7d".toUTF8)])], []⟩
    let after := (execute {} ["d", "d/map.json"] before).disk before
    let json := "\x7b\"\x7b\\n  a\\n\x7d\\n\":" ++
      "\x7b\"id\":1,\"transformedQuery\":\"\x7b\\n  a\\n\x7d\\n\"\x7d\x7d"
    (execute {} ["d", "d/map.json"] before).exitCode = 0 ∧
      before.Wrote after ["d", "map.json"] json.toUTF8 ∧
      (execute {} ["d", "d/map.json"] after).exitCode = 0 ∧
      (execute {} ["d", "d/map.json"] after).disk after = after := by
  intro before after json
  let given : Arguments := ⟨"d", some "d/map.json", false, false, none, none, none, .info⟩
  let chosen : Settings := { Settings.default with output := "d/map.json" }
  have read : Arguments.read {} ["d", "d/map.json"] =
      .ok ⟨"d", some "d/map.json", false, false, none, none, none, .info⟩ := by cbv
  have configured : given.settings before = .ok chosen := rfl
  have skips : chosen.Skips (fileName "d/map.json") := by
    unfold Settings.Skips
    decide
  have found : chosen.texts before "d" = .ok ["\x7ba\x7d"] := by
    have located (node : Node) : Disk.find? ⟨.directory [("d", node)], []⟩ "d" = some node := by
      cbv
    have visits (older content : ByteArray) :
        Node.walk "d" (.directory [("map.json", .file older), ("a.graphql", .file content)]) =
          [.file ⟨"d/a.graphql", content⟩, .file ⟨"d/map.json", older⟩] := by cbv
    have taken (content : ByteArray) :
        Settings.chosen? { Settings.default with output := "d/map.json" }
          (.file ⟨"d/a.graphql", content⟩) = some ⟨"d/a.graphql", content⟩ := by cbv
    have left (older : ByteArray) : chosen.chosen? (.file ⟨"d/map.json", older⟩) = none :=
      if_neg fun selected => skips (of_decide_eq_true selected)
    rw [Settings.texts, located]
    dsimp only
    rw [visits, List.filterMap_cons, taken, List.filterMap_cons, left]
    exact mapM_eq_ok.2 (.cons (chosen.fileText_toUTF8 rfl (by cbv) _) .nil)
  let query : GraphQL.Document := .ofOperation ⟨none, ⟨⟨1, 1⟩, ⟨1, 3⟩⟩,
    [.field ⟨⟨1, 2⟩, none, "a", [], []⟩ ⟨⟨1, 2⟩, ⟨1, 2⟩⟩ []]⟩
  let manifest := ([query].foldl Builder.addReduced (Builder.new [])).manifest
  have parsed : GraphQL.Document.parse "\x7ba\x7d" = .ok query := by cbv
  have reduced : Pipeline.reductions [] query = .ok [query] := by cbv
  have extracted : (chosen.extract before "d").Ends (.ok manifest) := by
    have answered := Builder.answer_eq (Builder.new []) (.source "\x7ba\x7d")
    rw [show (Builder.new []).pipeline = [] from rfl,
      Builder.Call.reductions_of_parse (by cbv) parsed, reduced] at answered
    have ends := chosen.ends_extract before "d"
    rwa [Settings.extraction_of_addSource found answered] at ends
  have key : query.canonicalKey = "\x7b\n  a\n\x7d\n" := by
    rw [Builder.canonicalKey_of_reductions reduced query List.mem_cons_self]
    simp only [query]
    decide +kernel
  have text : manifest.write = json := by
    rw [Manifest.write, Manifest.toJson, Builder.entries_singleton, key]
    simp only [query, json]
    decide +kernel
  have followed (entries : List (String × Node)) :
      Disk.follow (.directory [("d", .directory entries)])
        (Disk.origin ⟨.directory [("d", .directory entries)], []⟩ "d/map.json")
        (Disk.parts "d/map.json").dropLast = some ["d"] := by cbv
  have targets : before.Targets "d/map.json" ["d"] "map.json" := {
    last := by cbv
    isPath := by cbv
    isEntryName := by cbv
    led := followed _
    directory := rfl
    free := by
      intro same
      cases same }
  have unasked : ¬(Arguments.read {} ["d", "d/map.json"] = .error .help ∨
      Arguments.read {} ["d", "d/map.json"] = .error .version) := by
    rw [read]
    rintro (help | version)
    · cases help
    · cases version
  rcases execute_disk {} ["d", "d/map.json"] before with ⟨_, _, writes, succeeds⟩
  have code := succeeds _ _ _ _ read configured extracted targets.target?
  rcases writes code unasked with ⟨arguments, settings, written, names, same, delivered, rerun⟩
  cases read.symm.trans same
  cases configured.symm.trans delivered.configured
  cases targets.target?.symm.trans delivered.target
  cases extracted.iff_eq.1 delivered.extracted
  have again := rerun {
    config := by
      intro path absent
      cases absent
    input := fun _ _ _ => skips }
  exact ⟨code, text ▸ delivered.wrote, again⟩

end PersistedDocuments
