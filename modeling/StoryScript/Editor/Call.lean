import StoryScript.Json.Decode
import StoryScript.Json.Reader

/-!
What an editor and its language server say to each other. A call has a method and parameters; if
it also has an id, it is answered by a reply with that id.
-/

namespace StoryScript

open Json (Decoder Fault Record)

inductive CallId where
  | number (value : Int64)
  | text (value : String)
  | null
deriving DecidableEq, Inhabited

structure Call where
  id : Option CallId
  method : String
  params : Option Json
deriving DecidableEq, Inhabited

/-- Why a call has no result. -/
structure CallError where
  code : Int64
  message : String
  data : Option Json := none
deriving DecidableEq, Inhabited

structure Reply where
  id : CallId
  result : Except CallError Json

/-- What each side puts first into everything it says. -/
def protocolField : String × Json := ("jsonrpc", .string "2.0")

namespace CallId

def toJson : CallId → Json
  | number value => .ofInt value.toInt
  | text value => .string value
  | null => .null

def ofJson : Decoder CallId
  | .null => .ok null
  | .string value => .ok (text value)
  | json =>
    match Decoder.integer Int64.minValue.toInt Int64.maxValue.toInt "i64" json with
    | .ok value => .ok (number (Int64.ofInt value))
    | .error _ => .error (.noForm "Id")

end CallId

namespace Call

def protocolOf : Decoder Unit
  | .string "2.0" => .ok ()
  | json => .error (.invalidValue json "JSON-RPC version \"2.0\"")

def ofJson : Decoder Call := fun json => do
  let record ← Record.ofJson "struct Request" ["jsonrpc", "method", "params", "id"] json
  record.required "jsonrpc" protocolOf
  pure ⟨← record.field? "id" CallId.ofJson, ← record.defaulted "method" "" Decoder.text,
    ← record.field? "params" Decoder.any⟩

end Call

namespace CallError

def parseError : CallError := ⟨-32700, "Parse error", none⟩
def invalidRequest : CallError := ⟨-32600, "Invalid request", none⟩
def methodNotFound : CallError := ⟨-32601, "Method not found", none⟩
def notInitialized : CallError := ⟨-32002, "Server not initialized", none⟩
def invalidParams (message : String) : CallError := ⟨-32602, message, none⟩

def toJson (error : CallError) : Json :=
  Json.ofOptions
    [("code", some (.ofInt error.code.toInt)), ("message", some (.string error.message)),
      ("data", error.data)]

def fieldNames : List String := ["code", "message", "data"]

/-- An error without fields of other names. -/
def ofJson : Decoder CallError := fun json => do
  let record ← Record.ofJson "an error" fieldNames json
  match record.fields.find? fun field => field.1 ∉ fieldNames with
  | some field => throw (.unknownVariant field.1 fieldNames)
  | none =>
    let code ← record.required "code"
      (Decoder.integer Int64.minValue.toInt Int64.maxValue.toInt "i64")
    pure ⟨Int64.ofInt code, ← record.required "message" Decoder.text,
      ← record.nullable "data" Decoder.any⟩

end CallError

def Reply.toJson (reply : Reply) : Json :=
  let content := match reply.result with
    | .ok result => ("result", result)
    | .error error => ("error", error.toJson)
  .object [protocolField, content, ("id", reply.id.toJson)]

/-- The reply that an object stands for: it has one result, or else one error. -/
def Reply.ofJson : Decoder Reply := fun json => do
  let record ← Record.ofObject "a reply" ["jsonrpc", "id"] json
  record.required "jsonrpc" Call.protocolOf
  let id ← record.required "id" CallId.ofJson
  let called (name : String) := record.fields.filter fun field => field.1 = name
  match called "result", called "error" with
  | [(_, result)], _ => pure ⟨id, .ok result.normal⟩
  | _, [(_, error)] => pure ⟨id, .error (← CallError.ofJson error)⟩
  | _, _ => throw (.noForm "a reply")

/-- What an editor can say to its server. -/
inductive Incoming where
  | call (call : Call)
  | reply (reply : Reply)
  /-- Something that is neither, and how it is answered. -/
  | unreadable (error : CallError)

/-- What a text from the editor says. -/
def Incoming.ofText (text : String) : Incoming :=
  match Json.read? text with
  | none => .unreadable .parseError
  | some json =>
    match Reply.ofJson json, Call.ofJson json with
    | .ok said, _ => .reply said
    | .error _, .ok said => .call said
    | .error _, .error _ => .unreadable .invalidRequest

end StoryScript
