import StoryScript.Notice
import StoryScript.Program.Build

/-!
The built-in compiler. It keeps the texts of open documents as it is told of them, and answers
requests for programs from them; scripts that are not open it reads from files.
-/

namespace StoryScript

structure Worker where
  annotate : Annotator
  builtins : Keys String
  /-- The open documents. -/
  documents : Table Uri Source := Table.empty

namespace Worker

/-- What the compiler says when it is there. -/
def greeting : List Message :=
  [.notification Message.readyMethod .null]

/-- The text of a script: that of the open document, or else that of the file, which has version
zero. -/
def load (worker : Worker) (readFile : Uri → Option String) : Loader := fun uri =>
  match worker.documents.get? uri with
  | some source => some source
  | none => (readFile uri).map fun text => ⟨0, text⟩

/-- The documents after a notice. Changes of a document that is not open are passed over. -/
def noted (documents : Table Uri Source) : Notice → Table Uri Source
  | .opened uri version text => documents.insert uri ⟨version, text⟩
  | .changed uri version changes =>
    match documents.get? uri with
    | some source =>
      let text := String.ofList (Change.applyAll source.text.toList changes)
      documents.insert uri ⟨version, text⟩
    | none => documents
  | .closed uri => documents.erase uri

def methodNotFound : Int64 := -32601
def invalidParams : Int64 := -32602

/-- The answer to a request for a program: how far the compile has come, script by script, and
then the program. -/
def compile (worker : Worker) (readFile : Uri → Option String) (id : UInt64) (root : Uri) :
    List Message :=
  let load := worker.load readFile
  match Program.build? worker.annotate worker.builtins load root with
  | none => [.failure id invalidParams ("unknown document: " ++ root.text)]
  | some program =>
    let method := Message.progressMethod Message.compileMethod
    (Program.progress worker.annotate load root).map (fun (uri, compiled) =>
      .progress id method (CompileProgress.toJson ⟨uri, compiled⟩)) ++
      [.success id program.toJson]

/-- The answer to a request. -/
def respond (worker : Worker) (readFile : Uri → Option String) (id : UInt64) (method : String)
    (params : Json) : List Message :=
  if method = Message.compileMethod then
    match compileParamsOf params with
    | .ok root => worker.compile readFile id root
    | .error fault => [.failure id invalidParams fault.message]
  else [.failure id methodNotFound ("unsupported method: " ++ method)]

/-- Handles a message: requests are answered, notices are taken, and all else is passed over. -/
def handle (worker : Worker) (readFile : Uri → Option String) : Message → Worker × List Message
  | .request id method params => (worker, worker.respond readFile id method params)
  | .notification method params =>
    match Notice.ofNotification? method params with
    | some notice => ({ worker with documents := noted worker.documents notice }, [])
    | none => (worker, [])
  | .progress _ _ _ | .response _ _ _ => (worker, [])

/-- Handles messages in turn; the answers to each. -/
def handleAll (worker : Worker) (readFile : Uri → Option String) :
    List Message → Worker × List (List Message)
  | [] => (worker, [])
  | message :: rest =>
    let (worker, answers) := worker.handle readFile message
    let (worker, later) := worker.handleAll readFile rest
    (worker, answers :: later)

end Worker

end StoryScript
