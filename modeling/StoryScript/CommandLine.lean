import StoryScript.Config

/-!
The server's command line. Options are read from left to right. An option whose value is an
argument of its own is only looked at when the next option or the end is reached; an argument that
is no option and no value is refused before that.
-/

namespace StoryScript

/-- The options that take a value. -/
inductive CommandOption where
  | compiler
  | compilerArg
  | throttle
  | debounce
  | requestTimeout
  | mainScript
  | autoRenameAssets
deriving DecidableEq, Inhabited

namespace CommandOption

def all : List CommandOption :=
  [compiler, compilerArg, throttle, debounce, requestTimeout, mainScript, autoRenameAssets]

/-- The option's name on the command line, without the dashes. -/
def name : CommandOption → String
  | compiler => "compiler"
  | compilerArg => "compiler-arg"
  | throttle => "throttle-ms"
  | debounce => "debounce-ms"
  | requestTimeout => "request-timeout-ms"
  | mainScript => "main-script"
  | autoRenameAssets => "auto-rename-assets"

/-- What stands for the option's value. -/
def valueName : CommandOption → String
  | compiler => "COMPILER"
  | compilerArg => "COMPILER_ARGS"
  | throttle => "THROTTLE_MS"
  | debounce => "DEBOUNCE_MS"
  | requestTimeout => "REQUEST_TIMEOUT_MS"
  | mainScript => "MAIN_SCRIPTS"
  | autoRenameAssets => "AUTO_RENAME_ASSETS"

def help : CommandOption → String
  | compiler => "External compiler executable (default: built-in compiler)"
  | compilerArg => "Argument passed to the external compiler (repeatable)"
  | throttle => "Interim compile interval while typing, in milliseconds"
  | debounce => "Quiet period before the settled compile, in milliseconds"
  | requestTimeout => "Fail compiler requests that take longer than this, in milliseconds"
  | mainScript => "Main script file name (repeatable; default: main.ink)"
  | autoRenameAssets =>
    "Rename backing asset files when renaming asset symbols [possible values: true, false]"

/-- The option with its value, as it is shown. -/
def shown (option : CommandOption) : String :=
  "--" ++ option.name ++ " <" ++ option.valueName ++ ">"

/-- Whether the option may be given more than once. -/
def isRepeatable : CommandOption → Bool
  | compilerArg | mainScript => true
  | _ => false

/-- Whether any argument may be the option's value, also one that looks like an option. -/
def takesAnything (option : CommandOption) : Bool :=
  option = compilerArg

def ofName? (name : String) : Option CommandOption :=
  all.find? fun option => option.name = name

end CommandOption

/-- What is wrong with a command line. -/
inductive CommandError where
  | unexpected (argument : String)
  | missingValue (option : CommandOption)
  | repeated (option : CommandOption)
  | notANumber (option : CommandOption) (value : String) (reason : String)
  | notAFlag (option : CommandOption) (value : String)
  /-- A flag that takes no value has one. -/
  | unexpectedValue (flag value : String)
deriving DecidableEq, Inhabited

def CommandError.message : CommandError → String
  | unexpected argument => "unexpected argument '" ++ argument ++ "' found"
  | missingValue option =>
    "a value is required for '" ++ option.shown ++ "' but none was supplied"
  | repeated option => "the argument '" ++ option.shown ++ "' cannot be used multiple times"
  | notANumber option value reason =>
    "invalid value '" ++ value ++ "' for '" ++ option.shown ++ "': " ++ reason
  | notAFlag option value => "invalid value '" ++ value ++ "' for '" ++ option.shown ++ "'"
  | unexpectedValue flag value =>
    "unexpected value '" ++ value ++ "' for '" ++ flag ++ "' found; no more were expected"

/-- What a command line asks for. -/
inductive Command where
  | serve (config : Config)
  | printHelp
  | printVersion
deriving DecidableEq, Inhabited

/-- The options that were read. -/
structure CommandOptions where
  compiler : Option String := none
  compilerArgs : List String := []
  throttleMs : Option Nat := none
  debounceMs : Option Nat := none
  requestTimeoutMs : Option Nat := none
  mainScripts : List String := []
  autoRenameAssets : Option Bool := none
deriving DecidableEq, Inhabited

namespace CommandOptions

/-- The configuration that options ask for. Arguments of the compiler count only if there is a
compiler. -/
def config (options : CommandOptions) : Config :=
  let base : Config := {}
  { base with
    compilerCommand := options.compiler
    compilerArgs := if options.compiler.isSome then options.compilerArgs else []
    throttleMs := options.throttleMs.getD base.throttleMs
    debounceMs := options.debounceMs.getD base.debounceMs
    requestTimeoutMs := options.requestTimeoutMs
    mainScriptNames := if options.mainScripts = [] then base.mainScriptNames else options.mainScripts
    autoRenameAssets := options.autoRenameAssets.getD base.autoRenameAssets }

/-- Whether an option has been given. -/
def has (options : CommandOptions) : CommandOption → Bool
  | .compiler => options.compiler.isSome
  | .compilerArg => options.compilerArgs ≠ []
  | .throttle => options.throttleMs.isSome
  | .debounce => options.debounceMs.isSome
  | .requestTimeout => options.requestTimeoutMs.isSome
  | .mainScript => options.mainScripts ≠ []
  | .autoRenameAssets => options.autoRenameAssets.isSome

/-- A number of milliseconds, with at most a plus sign in front. -/
def numberOf (option : CommandOption) (value : String) : Except CommandError Nat :=
  let digits := match value.toList with
    | '+' :: digit :: rest => digit :: rest
    | characters => characters
  if value = "" then .error (.notANumber option value "cannot parse integer from empty string")
  else if !digits.all Char.isDigit then
    .error (.notANumber option value "invalid digit found in string")
  else
    let number := digits.foldl (fun sum digit => 10 * sum + (digit.toNat - '0'.toNat)) 0
    if number < UInt64.size then .ok number
    else .error (.notANumber option value "number too large to fit in target type")

def flagOf (option : CommandOption) (value : String) : Except CommandError Bool :=
  if value = "true" then .ok true
  else if value = "false" then .ok false
  else if value = "" then .error (.missingValue option)
  else .error (.notAFlag option value)

/-- Takes the value of an option. -/
def set (options : CommandOptions) (option : CommandOption) (value : String) :
    Except CommandError CommandOptions := do
  if options.has option && !option.isRepeatable then throw (.repeated option)
  match option with
  | .compiler => pure { options with compiler := some value }
  | .compilerArg => pure { options with compilerArgs := options.compilerArgs ++ [value] }
  | .throttle => pure { options with throttleMs := some (← numberOf option value) }
  | .debounce => pure { options with debounceMs := some (← numberOf option value) }
  | .requestTimeout => pure { options with requestTimeoutMs := some (← numberOf option value) }
  | .mainScript => pure { options with mainScripts := options.mainScripts ++ [value] }
  | .autoRenameAssets => pure { options with autoRenameAssets := some (← flagOf option value) }

end CommandOptions

/-- An option whose value has not been looked at. -/
inductive PendingOption where
  | none
  /-- The option still waits for its value. -/
  | awaiting (option : CommandOption)
  | given (option : CommandOption) (value : String)
deriving DecidableEq, Inhabited

namespace CommandLine

/-- Takes the option that has not been looked at. -/
def resolve (options : CommandOptions) : PendingOption → Except CommandError CommandOptions
  | .none => .ok options
  | .awaiting option => .error (.missingValue option)
  | .given option value => options.set option value

/-- What an argument looks like. -/
inductive Argument where
  /-- Two dashes and nothing else: all that follows is no option. -/
  | escape
  | long (name : String) (value : Option String)
  | short (letter : Char)
  | plain
deriving DecidableEq, Inhabited

/-- The name and value of a long option. -/
def splitValue (text : List Char) : Argument :=
  match text.dropWhile (· ≠ '=') with
  | [] => .long (String.ofList text) none
  | _ :: value => .long (String.ofList (text.takeWhile (· ≠ '='))) (some (String.ofList value))

def classify (argument : String) : Argument :=
  match argument.toList with
  | ['-', '-'] => .escape
  | '-' :: '-' :: rest => splitValue rest
  | '-' :: letter :: _ => .short letter
  | _ => .plain

/-- Reads a flag that is no option with a value. -/
def flag? (argument : Argument) : Option (Except CommandError Command) :=
  let only (flag : String) (command : Command) : Option String → Except CommandError Command
    | none => .ok command
    | some value => .error (.unexpectedValue flag value)
  match argument with
  | .long "help" value => some (only "--help" .printHelp value)
  | .long "version" value => some (only "--version" .printVersion value)
  | .short 'h' => some (.ok .printHelp)
  | .short 'V' => some (.ok .printVersion)
  | _ => none

/-- What an argument that is no option is called when it is refused. -/
def refusedName (argument : String) : Argument → String
  | .long name _ => "--" ++ name
  | .short letter => String.ofList ['-', letter]
  | .escape | .plain => argument

/-- Reads the arguments from one on. -/
def readFrom (options : CommandOptions) (pending : PendingOption) :
    List String → Except CommandError Command
  | [] => (resolve options pending).map fun options => .serve options.config
  | argument :: rest =>
    let takesValue := match pending with
      | .awaiting option => option.takesAnything || classify argument = .plain
      | _ => false
    match pending, takesValue with
    | .awaiting option, true => readFrom options (.given option argument) rest
    | _, _ =>
      let shape := classify argument
      match shape with
      | .escape =>
        match rest with
        | [] => readFrom options pending []
        | next :: _ => .error (.unexpected next)
      | .long name value =>
        match CommandOption.ofName? name with
        | some option => do
          let options ← resolve options pending
          match value with
          | none => readFrom options (.awaiting option) rest
          | some value => readFrom (← options.set option value) .none rest
        | none => readFlag options pending argument shape
      | _ => readFlag options pending argument shape
where
  /-- Reads an argument that is no option with a value. -/
  readFlag (options : CommandOptions) (pending : PendingOption) (argument : String)
      (shape : Argument) : Except CommandError Command :=
    match flag? shape with
    | some (.ok command) => do
      let _ ← resolve options pending
      pure command
    | some (.error error) => .error error
    | none => .error (.unexpected (refusedName argument shape))

/-- Reads a command line. -/
def read (arguments : List String) : Except CommandError Command :=
  readFrom {} .none arguments

/-- The program's name. -/
def programName : String := "quill-lsp"

def programVersion : String := "0.1.0"

def versionText : String := programName ++ " " ++ programVersion ++ "\n"

/-- What the command line says about itself. -/
def helpText : String :=
  let entry (left right : String) : String := left ++ "\n          " ++ right ++ "\n"
  "Quill narrative script language server\n\nUsage: " ++ programName ++
    " [OPTIONS]\n\nOptions:\n" ++
    String.join (CommandOption.all.map fun option => entry ("      " ++ option.shown) option.help) ++
    entry "  -h, --help" "Print help" ++ entry "  -V, --version" "Print version"

end CommandLine

end StoryScript
