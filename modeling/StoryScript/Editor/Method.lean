import StoryScript.Editor.Call
import StoryScript.Editor.Params

/-!
The methods that an editor may call. A server knows all methods of its protocol, and refuses those
that it has no answer to.
-/

namespace StoryScript

open Json (Decoder Fault Record)

/-- The notifications that are known and change nothing. -/
def idleNotifications : List String :=
  ["textDocument/willSave", "textDocument/didSave", "workspace/didChangeConfiguration",
    "workspace/didChangeWorkspaceFolders", "workspace/didCreateFiles", "workspace/didRenameFiles",
    "workspace/didDeleteFiles"]

/-- What an editor asks a server that is initialized. -/
inductive EditorRequest where
  | definition (place : Params.Place)
  | references (params : Params.References)
  | prepareRename (place : Params.Place)
  | rename (params : Params.Rename)
deriving DecidableEq

/-- What an editor tells a server that is initialized. -/
inductive EditorNotification where
  | initialized
  | opened (document : Params.Opened)
  | changed (change : Params.Changed)
  | closed (uri : Uri)
  | filesChanged (events : List Params.FileEvent)
deriving DecidableEq

inductive Method where
  | start
  | shutdown
  | exit
  | request (decode : Decoder EditorRequest)
  | notification (decode : Decoder EditorNotification)
  /-- A request that is known but not answered. -/
  | unsupported (params : Shape)
  /-- A notification that changes nothing. -/
  | idle
  /-- The editor no longer waits for a reply. Every call is answered before the next one is read, so
  this changes nothing, at any time. -/
  | cancel

/-- The method of some name. -/
def Method.ofName? (name : String) : Option Method :=
  match name with
  | "initialize" => some start
  | "shutdown" => some shutdown
  | "exit" => some exit
  | "$/cancelRequest" => some cancel
  | "textDocument/definition" =>
    some (request fun json => (Params.definition json).map .definition)
  | "textDocument/references" =>
    some (request fun json => (Params.references json).map .references)
  | "textDocument/prepareRename" => some (request fun json => (Params.place json).map .prepareRename)
  | "textDocument/rename" => some (request fun json => (Params.rename json).map .rename)
  | "initialized" =>
    some (notification fun json => (Params.initialized json).map fun _ => .initialized)
  | "textDocument/didOpen" => some (notification fun json => (Params.opened json).map .opened)
  | "textDocument/didChange" => some (notification fun json => (Params.changed json).map .changed)
  | "textDocument/didClose" => some (notification fun json => (Params.closed json).map .closed)
  | "workspace/didChangeWatchedFiles" =>
    some (notification fun json => (Params.fileEvents json).map .filesChanged)
  | _ =>
    if name ∈ idleNotifications then some idle
    else (Schema.unsupported.lookup name).map unsupported

/-- Reads the parameters of a call. -/
def Call.decode {α : Type} (call : Call) (decode : Decoder α) : Except CallError α :=
  match call.params with
  | none => .error (.invalidParams "Missing params field")
  | some params =>
    match decode params with
    | .ok value => .ok value
    | .error fault => .error (.invalidParams fault.message)

end StoryScript
