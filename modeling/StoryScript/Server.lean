import StoryScript.CommandLine
import StoryScript.Disk
import StoryScript.Editor.Method
import StoryScript.Script.Scan
import StoryScript.Session
import StoryScript.Wire.Rename

/-!
The language server. It answers an editor's calls, one at a time, from a session over the built-in
compiler, which starts when the editor initializes the server and ends when the editor shuts it
down.
-/

namespace StoryScript

/-- How far a server's life has come. -/
inductive Lifecycle where
  | uninitialized
  | initialized
  | shutDown
  | exited
deriving DecidableEq, Inhabited

/-- What a server tells the editor without being asked. -/
inductive EditorNote where
  | diagnostics (uri : Uri) (found : List Diagnostic) (version : Option Version)
  /-- An error that the user should see. -/
  | errorMessage (text : String)

def EditorNote.toJson : EditorNote → Json
  | diagnostics uri found version =>
    .object
      [protocolField, ("method", .string "textDocument/publishDiagnostics"),
        ("params", Json.ofOptions
          [("diagnostics", some (Json.ofList Diagnostic.toJson found)),
            ("uri", some uri.toJson), ("version", version.map Json.ofVersion)])]
  | errorMessage text =>
    .object
      [protocolField, ("method", .string "window/showMessage"),
        ("params", .object [("message", .string text), ("type", .ofNat 1)])]

/-- What a server says after a call. -/
structure ServerOutput where
  notes : List EditorNote := []
  reply : Option Reply := none

/-- All that a server says, in order. -/
def ServerOutput.messages (output : ServerOutput) : List Json :=
  output.notes.map EditorNote.toJson ++ output.reply.toList.map Reply.toJson

structure Server where
  config : Config
  lifecycle : Lifecycle := .uninitialized
  /-- The directories that the editor works in. -/
  roots : List Uri := []
  session : Option (Session Worker) := none

namespace Server

/-- What a server can do, as it says when it is initialized. -/
def abilities : Json :=
  .object
    [("capabilities", .object
      [("textDocumentSync", .object [("openClose", .bool true), ("change", .ofNat 2)]),
        ("definitionProvider", .bool true), ("referencesProvider", .bool true),
        ("renameProvider", .object [("prepareProvider", .bool true)])]),
      ("serverInfo", .object [("name", .string CommandLine.programName),
        ("version", .string CommandLine.programVersion)])]

/-- What the editor is told of an engine's events. -/
def notesOf (events : List EngineEvent) : List EditorNote :=
  events.filterMap fun
    | .published uri diagnostics version => some (.diagnostics uri diagnostics version)
    | _ => none

def answerIn? (events : List EngineEvent) : Option EngineAnswer :=
  events.findSome? fun
    | .answered _ answer => some answer
    | _ => none

/-- The reply to a call, if it waits for one. -/
def replyTo (call : Call) (result : Except CallError Json) : ServerOutput :=
  { reply := call.id.map fun id => ⟨id, result⟩ }

/-- Why a call that needs an initialized server is refused. -/
def refusal : Lifecycle → CallError
  | .uninitialized => .notInitialized
  | _ => .invalidRequest

/-- Starts the session, always with the built-in compiler: no other is started here, whatever
`compilerCommand` says. It is also the one that stands in for a compiler that cannot be started. -/
def start (server : Server) (params : Params.Initialize) : Server :=
  let config := (params.options.bind server.config.merge?).getD server.config
  { config
    lifecycle := .initialized
    roots := params.roots.filter fun uri => uri.filePath?.isSome
    session := some (Worker.session config Script.annotate) }

/-- Runs something on the session, if there is one. -/
def onSession (server : Server) (run : Session Worker → Sessioned Worker) :
    Server × List EngineEvent :=
  match server.session with
  | none => (server, [])
  | some session =>
    let (session, events) := run session
    ({ server with session := some session }, events)

/-- Makes a request of the engine, and gets its answer. -/
def ask (server : Server) (disk : Disk) (request : EngineRequest) :
    Server × List EditorNote × Option EngineAnswer :=
  let (server, events) := server.onSession fun session =>
    session.request (Worker.peer disk.read?) 0 request
  (server, notesOf events, answerIn? events)

/-- The result of a request, from the engine's answer. -/
def resultOf : EngineAnswer → Json
  | .accepted _ | .compiled _ => .null
  | .found search => Json.ofList Location.toJson search.locations
  | .defined location => Json.ofOption Location.toJson location
  | .renamed rename => Json.ofOption Rename.toJson rename

/-- Answers a request. -/
def answer (server : Server) (disk : Disk) (request : EditorRequest) :
    Server × List EditorNote × Json :=
  let through (request : EngineRequest) : Server × List EditorNote × Json :=
    let (server, notes, answer) := server.ask disk request
    (server, notes, Json.ofOption resultOf answer)
  match request with
  | .definition place => through (.definition place.uri place.position)
  | .references params =>
    through (.references params.place.uri params.place.position
      { declarations := params.includeDeclaration })
  | .rename params => through (.rename params.place.uri params.place.position params.newName)
  | .prepareRename place =>
    let range := server.session.bind fun session =>
      session.engine.renameRange? place.uri place.position
    (server, [], Json.ofOption Range.toJson range)

/-- The error that the user sees when a document is refused. -/
def tooLarge (server : Server) (text : String) : EditorNote :=
  .errorMessage ("Document too large: " ++ Nat.repr text.utf8ByteSize ++
    " bytes exceeds maximum of " ++ Nat.repr server.config.maxDocumentSize ++ " bytes")

/-- Takes a notification. -/
def take (server : Server) (disk : Disk) (notification : EditorNotification) :
    Server × List EditorNote :=
  let peer := Worker.peer disk.read?
  match notification with
  | .initialized =>
    let files := server.roots.flatMap disk.filesUnderUri
    let (server, events) := server.onSession fun session => session.step peer (.filesFound files)
    (server, notesOf events)
  | .opened document =>
    let request := .openDocument document.uri document.version document.text
    match server.ask disk request with
    | (server, notes, some (.accepted false)) => (server, notes ++ [server.tooLarge document.text])
    | (server, notes, _) => (server, notes)
  | .changed change =>
    let (server, notes, _) :=
      server.ask disk (.changeDocument change.uri change.version change.changes)
    (server, notes)
  | .closed uri =>
    let (server, notes, _) := server.ask disk (.closeDocument uri)
    (server, notes)
  | .filesChanged fileEvents =>
    let (server, events) := fileEvents.foldl (fun (server, events) fileEvent =>
      let input := if fileEvent.isDeleted then .fileDeleted fileEvent.uri
        else .filesFound [fileEvent.uri]
      let (server, later) := server.onSession fun session => session.step peer input
      (server, events ++ later)) (server, [])
    (server, notesOf events)

/-- Handles a call that needs an initialized server. -/
def handleInitialized (server : Server) (disk : Disk) (call : Call) :
    Method → Server × ServerOutput
  | .request decode =>
    match call.id, call.decode decode with
    | none, _ => (server, {})
    | some _, .error error => (server, replyTo call (.error error))
    | some id, .ok request =>
      let (server, notes, result) := server.answer disk request
      (server, { notes, reply := some ⟨id, .ok result⟩ })
  | .notification decode =>
    match call.id, call.decode decode with
    | some _, _ => (server, replyTo call (.error .invalidRequest))
    | none, .ok notification =>
      let (server, notes) := server.take disk notification
      (server, { notes })
    | none, .error _ => (server, {})
  | .unsupported shape =>
    (server, replyTo call (.error (match call.decode shape.check with
      | .ok _ => .methodNotFound
      | .error error => error)))
  | .shutdown =>
    let server := { server with lifecycle := .shutDown }
    match call.id, call.params with
    | none, _ => (server, {})
    | some _, some params =>
      (server, replyTo call (.error (.invalidParams ("Unexpected params: " ++ params.write))))
    | some _, none =>
      let (server, events) := server.onSession fun session =>
        session.dispose (Worker.peer disk.read?)
      (server, { notes := notesOf events, reply := (replyTo call (.ok .null)).reply })
  | .idle | .cancel => (server, replyTo call (.error .invalidRequest))
  | .start | .exit => (server, {})

/-- Handles a call. A notification that comes with an id is refused. -/
def handle (server : Server) (disk : Disk) (call : Call) : Server × ServerOutput :=
  if server.lifecycle = .exited then (server, {})
  else
    match Method.ofName? call.method with
    | none =>
      if call.method.startsWith "$/" then (server, {})
      else
        (server, replyTo call
          (.error { CallError.methodNotFound with data := some (.string call.method) }))
    | some .exit => ({ server with lifecycle := .exited }, {})
    | some .start =>
      if server.lifecycle ≠ .uninitialized then (server, replyTo call (.error .invalidRequest))
      else
        match call.id, call.decode Params.Initialize.ofJson with
        | none, _ => (server, {})
        | some _, .error error => (server, replyTo call (.error error))
        | some _, .ok params => (server.start params, replyTo call (.ok abilities))
    | some method =>
      if server.lifecycle = .initialized then server.handleInitialized disk call method
      else
        match method with
        | .cancel => (server, replyTo call (.error .invalidRequest))
        | _ => (server, replyTo call (.error (refusal server.lifecycle)))

/-- Handles what an editor says. Replies are passed over, since the server asks for none, and the
server leaves when it does not understand the editor. -/
def receive (server : Server) (disk : Disk) : Incoming → Server × ServerOutput
  | .call call => server.handle disk call
  | .reply _ => (server, {})
  | .unreadable error =>
    if server.lifecycle = .exited then (server, {})
    else
      ({ server with lifecycle := .exited, session := none },
        { reply := some ⟨.null, .error error⟩ })

/-- Moves the clock on. -/
def advance (server : Server) (disk : Disk) (time : Nat) : Server × ServerOutput :=
  let (server, events) := server.onSession fun session =>
    session.advance (Worker.peer disk.read?) time
  (server, { notes := notesOf events })

/-- The time on a server's clock. -/
def now (server : Server) : Nat :=
  (server.session.map fun session => session.engine.now).getD 0

/-- The next time at which a server does something by itself. -/
def deadline? (server : Server) : Option Nat :=
  server.session.bind Session.deadline?

end Server

end StoryScript
