import PersistedDocuments.Settings

/-!
# Command line

The arguments of an extraction. An option that takes a value waits for the next argument unless the
value is attached to it, and what waits is checked only when another known argument follows or the
arguments end. So an unknown argument is reported before a bad value in front of it, and a bad value
before anything behind the next known argument.
-/

namespace PersistedDocuments

inductive LogLevel where
  | off
  | error
  | warn
  | info
  | debug
  | trace
  deriving DecidableEq

namespace LogLevel

def ofText? : String → Option LogLevel
  | "off" => some off
  | "error" => some error
  | "warn" => some warn
  | "info" => some info
  | "debug" => some debug
  | "trace" => some trace
  | _ => none

/-- The filter of messages that a level stands for. -/
def filter : LogLevel → String
  | off => "off"
  | error => "extract_gql=error,off"
  | warn => "extract_gql=warn,off"
  | info => "extract_gql=info,off"
  | debug => "extract_gql=debug,off"
  | trace => "trace"

end LogLevel

/-- Why arguments are not run: the first two are asked for, the others are mistakes. -/
inductive UsageError where
  | help
  | version
  | nothingGiven
  | unknownArgument
  | invalidValue
  | unexpectedValue
  | repeatedArgument
  | missingInput
  deriving DecidableEq

/-- What may be given. -/
inductive Parameter where
  | input
  | output
  | addTypename
  | js
  | extension
  | literalTag
  | config
  | log
  | help
  | version
  deriving DecidableEq

namespace Parameter

def takesValue : Parameter → Bool
  | addTypename | js | help | version => false
  | _ => true

def ofLong? : String → Option Parameter
  | "add-typename" => some addTypename
  | "js" => some js
  | "extension" => some extension
  | "literal-tag" => some literalTag
  | "config" => some config
  | "log" => some log
  | "help" => some help
  | "version" => some version
  | _ => none

def ofShort? : Char → Option Parameter
  | 'c' => some config
  | 'h' => some help
  | 'V' => some version
  | _ => none

end Parameter

/-- The arguments of a run, as far as they are given. -/
structure Given where
  input : Option String := none
  output : Option String := none
  addTypename : Bool := false
  js : Bool := false
  extension : Option String := none
  literalTag : Option String := none
  config : Option String := none
  log : Option LogLevel := none

namespace Given

/-- A text that is set once; `valid` says what it may be. -/
def once {α : Type} (before : Option α) (value : Option String) (valid : String → Option α) :
    Except UsageError α :=
  match value with
  | none => .error .invalidValue
  | some text =>
    if before.isSome then .error .repeatedArgument
    else
      match valid text with
      | some a => .ok a
      | none => .error .invalidValue

/-- Paths are not empty. -/
def path? (text : String) : Option String := if text.isEmpty then none else some text

def flag (before : Bool) : Except UsageError Bool :=
  if before then .error .repeatedArgument else .ok true

/-- Takes over a parameter with its value. -/
def accept (given : Given) (parameter : Parameter) (value : Option String) :
    Except UsageError Given :=
  match parameter with
  | .input => do return { given with input := ← once given.input value path? }
  | .output => do return { given with output := ← once given.output value path? }
  | .addTypename => do return { given with addTypename := ← flag given.addTypename }
  | .js => do return { given with js := ← flag given.js }
  | .extension => do return { given with extension := ← once given.extension value some }
  | .literalTag => do return { given with literalTag := ← once given.literalTag value some }
  | .config => do return { given with config := ← once given.config value path? }
  | .log => do return { given with log := ← once given.log value LogLevel.ofText? }
  | .help => .error .help
  | .version => .error .version

/-- Whether anything is given. -/
def isAny (given : Given) : Bool :=
  given.input.isSome || given.output.isSome || given.addTypename || given.js ||
    given.extension.isSome || given.literalTag.isSome || given.config.isSome || given.log.isSome

end Given

/-- The state of reading: what is given, the parameter that waits to be checked, or for its value,
and the places that are left for arguments without a name. -/
structure Reading where
  given : Given
  waiting : Option (Parameter × Option String)
  places : List Parameter

namespace Reading

def start : Reading := ⟨{}, none, [.input, .output]⟩

/-- Checks the parameter that waits. -/
def settle (reading : Reading) : Except UsageError Reading :=
  match reading.waiting with
  | none => .ok reading
  | some (parameter, value) => do
    return { reading with given := ← reading.given.accept parameter value, waiting := none }

/-- Takes a parameter that need not wait. -/
def take (reading : Reading) (parameter : Parameter) (value : Option String) :
    Except UsageError Reading := do
  let reading ← reading.settle
  return { reading with given := ← reading.given.accept parameter value }

/-- Lets a parameter wait. -/
def wait (reading : Reading) (parameter : Parameter) (value : Option String) :
    Except UsageError Reading := do
  return { ← reading.settle with waiting := some (parameter, value) }

/-- Takes a known parameter with the value attached to it, if there is one. -/
def named (reading : Reading) (parameter : Parameter) (attached : Option String) :
    Except UsageError Reading :=
  match parameter.takesValue, attached with
  | true, some value => reading.take parameter (some value)
  | true, none => reading.wait parameter none
  | false, none => reading.take parameter none
  | false, some _ => .error .unexpectedValue

/-- Takes an argument without a name. -/
def positional (reading : Reading) (value : String) : Except UsageError Reading :=
  match reading.places with
  | [] => .error .unknownArgument
  | parameter :: places => do
    return { ← reading.wait parameter (some value) with places }

/-- Takes an argument that begins with two dashes, which are left out here. -/
def long (reading : Reading) (cs : List Char) : Except UsageError Reading :=
  let name := String.ofList (cs.takeWhile (· ≠ '='))
  let attached :=
    match cs.dropWhile (· ≠ '=') with
    | [] => none
    | _ :: value => some (String.ofList value)
  match Parameter.ofLong? name with
  | some parameter => reading.named parameter attached
  | none => .error .unknownArgument

/-- Takes the letters behind a dash. A letter that takes a value takes the rest for it, without a
sign of equality in front. -/
def short (reading : Reading) : List Char → Except UsageError Reading
  | [] => .ok reading
  | c :: rest =>
    match Parameter.ofShort? c with
    | none => .error .unknownArgument
    | some parameter =>
      if parameter.takesValue then
        match rest with
        | [] => reading.named parameter none
        | '=' :: value => reading.named parameter (some (String.ofList value))
        | value => reading.named parameter (some (String.ofList value))
      else do
        let reading ← reading.named parameter none
        reading.short rest

/-- Takes one argument. -/
def argument (reading : Reading) (text : String) : Except UsageError Reading :=
  match text.toList with
  | '-' :: '-' :: name => reading.long name
  | '-' :: letter :: letters => reading.short (letter :: letters)
  | _ =>
    match reading.waiting with
    | some (parameter, none) => .ok { reading with waiting := some (parameter, some text) }
    | _ => reading.positional text

/-- Takes the arguments in turn. Behind two dashes none has a name. -/
def arguments (reading : Reading) : List String → Except UsageError Reading
  | [] => reading.settle
  | "--" :: rest => do (← rest.foldlM positional reading).settle
  | text :: rest => do (← reading.argument text).arguments rest

end Reading

/-- The variables of the environment that stand in for arguments. -/
structure Environment where
  config : Option String := none
  log : Option String := none

/-- The arguments of a run. -/
structure Arguments where
  input : String
  output : Option String
  addTypename : Bool
  js : Bool
  extension : Option String
  literalTag : Option String
  config : Option String
  log : LogLevel

namespace Arguments

/-- Takes a parameter from the environment, unless an argument gives it. -/
def fromEnvironment (given : Given) (parameter : Parameter) (present : Bool)
    (value : Option String) : Except UsageError Given :=
  match present, value with
  | false, some text => given.accept parameter (some text)
  | _, _ => .ok given

/-- The arguments that texts and the environment stand for. -/
def read (environment : Environment) (texts : List String) : Except UsageError Arguments := do
  let reading ← Reading.start.arguments texts
  let given := reading.given
  let given ← fromEnvironment given .config given.config.isSome environment.config
  let given ← fromEnvironment given .log given.log.isSome environment.log
  if !given.isAny then throw .nothingGiven
  match given.input with
  | none => throw .missingInput
  | some input =>
    return {
      input
      output := given.output
      addTypename := given.addTypename
      js := given.js
      extension := given.extension
      literalTag := given.literalTag
      config := given.config
      log := given.log.getD .info }

/-- Settings with the arguments on top of them. A flag that is set stays set. -/
def apply (arguments : Arguments) (settings : Settings) : Settings where
  output := arguments.output.getD settings.output
  extension := arguments.extension.getD settings.extension
  js := settings.js || arguments.js
  literalTag := arguments.literalTag.getD settings.literalTag
  addTypename := settings.addTypename || arguments.addTypename

end Arguments

end PersistedDocuments
