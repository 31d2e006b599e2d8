import StoryScript.Json.Decode

/-!
The configuration of the server. A client may set each field; a configuration with a field of the
wrong type is refused as a whole.
-/

namespace StoryScript

open Json.Decoder

open Json (Decoder Fault Record)

structure Config where
  /-- The file names of scripts that a project starts from. -/
  mainScriptNames : List String := ["main.ink"]
  /-- The file extensions of scripts, without the dot. -/
  scriptExtensions : List String := ["ink"]
  /-- How long compiles are apart while a document is being edited. -/
  throttleMs : Nat := 100
  /-- How long a document is left alone before it is compiled. -/
  debounceMs : Nat := 200
  /-- How long the compiler may take to answer. -/
  requestTimeoutMs : Option Nat := none
  /-- The compiler's program, if not the built-in one. -/
  compilerCommand : Option String := none
  compilerArgs : List String := []
  /-- Whether asset files are renamed with their symbols. -/
  autoRenameAssets : Bool := true
  /-- The most bytes that a document may have. -/
  maxDocumentSize : Nat := 64 * 1024 * 1024
  /-- The ids that are known without a declaration. -/
  builtinIds : List String := ["DONE", "END"]
deriving DecidableEq, Inhabited

namespace Config

def builtins (config : Config) : Keys String :=
  Keys.ofList config.builtinIds

def toJson (config : Config) : Json :=
  .object
    [("mainScriptNames", Json.ofStrings config.mainScriptNames),
      ("scriptExtensions", Json.ofStrings config.scriptExtensions),
      ("throttleMs", .ofNat config.throttleMs),
      ("debounceMs", .ofNat config.debounceMs),
      ("requestTimeoutMs", Json.ofOption .ofNat config.requestTimeoutMs),
      ("compilerCommand", Json.ofOption .string config.compilerCommand),
      ("compilerArgs", Json.ofStrings config.compilerArgs),
      ("autoRenameAssets", .bool config.autoRenameAssets),
      ("maxDocumentSize", .ofNat config.maxDocumentSize),
      ("builtinIds", Json.ofStrings config.builtinIds)]

/-- The names of the fields, in order. -/
def fieldNames : List String :=
  ["mainScriptNames", "scriptExtensions", "throttleMs", "debounceMs", "requestTimeoutMs",
    "compilerCommand", "compilerArgs", "autoRenameAssets", "maxDocumentSize", "builtinIds"]

/-- A configuration whose missing fields are those of another. -/
def ofJsonOver (base : Config) : Decoder Config := fun json => do
  let record ← Record.ofJson "a configuration" fieldNames json
  let texts := list text
  let milliseconds := natural 64 "u64"
  pure
    { mainScriptNames := ← record.defaulted "mainScriptNames" base.mainScriptNames texts
      scriptExtensions := ← record.defaulted "scriptExtensions" base.scriptExtensions texts
      throttleMs := ← record.defaulted "throttleMs" base.throttleMs milliseconds
      debounceMs := ← record.defaulted "debounceMs" base.debounceMs milliseconds
      requestTimeoutMs := ← record.defaulted "requestTimeoutMs" base.requestTimeoutMs
        (nullable milliseconds)
      compilerCommand := ← record.defaulted "compilerCommand" base.compilerCommand
        (nullable text)
      compilerArgs := ← record.defaulted "compilerArgs" base.compilerArgs texts
      autoRenameAssets := ← record.defaulted "autoRenameAssets" base.autoRenameAssets flag
      maxDocumentSize := ← record.defaulted "maxDocumentSize" base.maxDocumentSize count
      builtinIds := ← record.defaulted "builtinIds" base.builtinIds texts }

def ofJson : Decoder Config := ofJsonOver {}

/-- The configuration with the fields of an object replaced. Anything else changes nothing, and an
object with a field of the wrong type is refused. -/
def merge? (config : Config) (options : Json) : Option Config :=
  match options with
  | .object _ => (config.ofJsonOver options).toOption
  | _ => some config

end Config

end StoryScript
