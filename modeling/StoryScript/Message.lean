import StoryScript.Json.Decode

/-!
The messages that an editor's side and a compiler exchange, and their JSON form. A message does
not name its kind: it is told by its fields, a request before anything else.
-/

namespace StoryScript

open Json.Decoder

open Json (Decoder Fault Record)

/-- A failure that the other side reports. -/
structure RemoteError where
  code : Int64
  message : String
deriving DecidableEq, Inhabited

inductive Message where
  | request (id : UInt64) (method : String) (params : Json)
  /-- News of a request that is still being answered. -/
  | progress (id : UInt64) (method : String) (value : Json)
  | response (id : UInt64) (result : Option Json) (error : Option RemoteError)
  | notification (method : String) (params : Json)
deriving DecidableEq, Inhabited

namespace RemoteError

def toJson (error : RemoteError) : Json :=
  .object [("code", .ofInt error.code.toInt), ("message", .string error.message)]

def ofJson : Decoder RemoteError := fun json => do
  let record ← Record.ofJson "an error" ["code", "message"] json
  let code ← record.required "code"
    (integer Int64.minValue.toInt Int64.maxValue.toInt "i64")
  pure ⟨Int64.ofInt code, ← record.required "message" text⟩

end RemoteError

namespace Message

/-- The request that a message belongs to. -/
def id? : Message → Option UInt64
  | request id _ _ | progress id _ _ | response id _ _ => some id
  | notification _ _ => none

/-- What kind of message it is. -/
def kind : Message → String
  | request _ _ _ => "request"
  | progress _ _ _ => "progress"
  | response _ _ _ => "response"
  | notification _ _ => "notification"

def success (id : UInt64) (result : Json) : Message :=
  response id (some result) none

def failure (id : UInt64) (code : Int64) (message : String) : Message :=
  response id none (some ⟨code, message⟩)

def toJson : Message → Json
  | request id method params =>
    .object [("id", .ofNat id.toNat), ("method", .string method), ("params", params)]
  | progress id method value =>
    .object [("id", .ofNat id.toNat), ("method", .string method), ("value", value)]
  | response id result error =>
    Json.ofOptions
      [("id", some (.ofNat id.toNat)), ("result", result), ("error", error.map RemoteError.toJson)]
  | notification method params => .object [("method", .string method), ("params", params)]

def idOfJson : Decoder UInt64 := fun json =>
  (natural 64 "u64" json).map UInt64.ofNat

def requestOf (json : Json) : Except Fault Message := do
  let record ← Record.ofJson "a request" ["id", "method", "params"] json
  pure (request (← record.required "id" idOfJson) (← record.required "method" text)
    (← record.required "params" any))

def progressOf (json : Json) : Except Fault Message := do
  let record ← Record.ofJson "a progress message" ["id", "method", "value"] json
  pure (progress (← record.required "id" idOfJson) (← record.required "method" text)
    (← record.required "value" any))

def responseOf (json : Json) : Except Fault Message := do
  let record ← Record.ofJson "a response" ["id", "result", "error"] json
  pure (response (← record.required "id" idOfJson) (← record.optional "result" any)
    (← record.optional "error" RemoteError.ofJson))

def notificationOf (json : Json) : Except Fault Message := do
  let record ← Record.ofJson "a notification" ["method", "params"] json
  pure (notification (← record.required "method" text)
    (← record.defaulted "params" Json.null any))

/-- The message that an object stands for: the first of request, progress, response and
notification whose fields it has. -/
def ofJson? : Json → Option Message
  | .object fields =>
    [requestOf, progressOf, responseOf, notificationOf].findSome? fun decode =>
      (decode (.object fields)).toOption
  | _ => none

/-- The notification by which a compiler says that it listens. -/
def readyMethod : String := "ready"
def compileMethod : String := "compiler/compile"
def openMethod : String := "compiler/didOpen"
def changeMethod : String := "compiler/didChange"
def closeMethod : String := "compiler/didClose"

/-- The method of the progress messages of a request. -/
def progressMethod (method : String) : String := method ++ "/progress"

end Message

end StoryScript
