import StoryScript.Editor.Frame
import StoryScript.Server

/-!
The program: reads the command line, and serves an editor over standard input and output. Files are
read before a call is handled; which ones a call needs is found by handling it with those that are
known so far.
-/

namespace StoryScript.Main

/-- The names on the way to a file, if none of them is empty or made of dots. -/
def namesOf? (uri : Uri) : Option (List String) :=
  (uri.pathComponents?.map (List.drop 1)).filter fun names =>
    names.all fun name => name ≠ "" && name ≠ "." && name ≠ ".."

/-- The content of the file that a uri names. -/
def readFile? (uri : Uri) : IO (Option DiskFile) := do
  match namesOf? uri with
  | none => pure none
  | some names =>
    try
      let content ← IO.FS.readBinFile ("/" ++ String.intercalate "/" names)
      pure (some ⟨names, content.toList⟩)
    catch _ => pure none

/-- The paths of the files in a directory, at some depth at most. -/
def listFiles (names : List String) : Nat → IO (List DiskFile)
  | 0 => pure []
  | depth + 1 => do
    let directory := (← IO.currentDir) / ("/" ++ String.intercalate "/" names)
    try
      let entries ← directory.readDir
      let files ← entries.toList.mapM fun entry => do
        let path := names ++ [entry.fileName]
        if ← entry.path.isDir then listFiles path depth else pure [⟨path, []⟩]
      pure files.flatten
    catch _ => pure []

def listRoots (roots : List Uri) : IO (List DiskFile) := do
  let files ← roots.mapM fun root =>
    match namesOf? root with
    | none => pure []
    | some names => listFiles names 64
  pure files.flatten

/-- The scripts that a server's documents, and the files that were read, lead to. -/
def wanted (server : Server) (files : List DiskFile) : List Uri :=
  match server.session with
  | none => []
  | some session =>
    let project := session.engine.project
    let documents := project.store.documents.entries.map fun (uri, document) =>
      (uri, document.text)
    let texts := files.filterMap fun file =>
      (Percent.utf8? file.content).map fun text => (Uri.ofFilePath file.path, text)
    project.workspace.scripts.keys ++ (documents ++ texts).flatMap fun (uri, text) =>
      (Script.annotate text).includes.items.filterMap fun item => uri.resolve? item.value.path

/-- Runs something on a server with all files that it needs. The files of `listed` are only known
to be there. -/
partial def withFiles (run : Disk → Server × ServerOutput) (listed read : List DiskFile)
    (tried : List Uri) : IO (Server × ServerOutput) := do
  let (server, output) := run ⟨read ++ listed⟩
  match (wanted server read).filter fun uri => uri ∉ tried with
  | [] => pure (server, output)
  | fresh =>
    let fresh := fresh.eraseDups
    let files ← fresh.filterMapM readFile?
    withFiles run listed (read ++ files) (tried ++ fresh)

/-- Reads some bytes. -/
partial def readBytes (stream : IO.FS.Stream) (bytes : ByteArray) (count : Nat) : IO ByteArray := do
  if count ≤ bytes.size then pure bytes
  else
    let more ← stream.read (USize.ofNat (count - bytes.size))
    if more.isEmpty then pure bytes else readBytes stream (bytes ++ more) count

/-- Reads a header up to the blank line behind it; the length that it tells. -/
partial def readHeader (stream : IO.FS.Stream) (length : Option Nat) : IO (Option Nat) := do
  let line ← stream.getLine
  if line.isEmpty then pure none
  else if line.toList.all Char.isWhitespace then
    if length.isSome then pure length else readHeader stream none
  else readHeader stream ((Frame.lengthIn? line).or length)

/-- Reads what the editor says; nothing at the end of the input. -/
def readIncoming (stream : IO.FS.Stream) : IO (Option Incoming) := do
  match ← readHeader stream none with
  | none => pure none
  | some length =>
    let bytes ← readBytes stream ByteArray.empty length
    if bytes.size < length then pure none
    else
      match String.fromUTF8? bytes with
      | some text => pure (some (.ofText text))
      | none => pure (some (.unreadable .parseError))

/-- Says something to the editor. -/
def say (stream : IO.FS.Stream) (output : ServerOutput) : IO Unit := do
  output.messages.forM fun message => stream.putStr (Frame.encode message)
  stream.flush

/-- Serves the editor until it leaves. -/
partial def serve (input output : IO.FS.Stream) (startTime : Nat) (server : Server)
    (reading : Task (Except IO.Error (Option Incoming))) : IO Unit := do
  let time := (← IO.monoMsNow) - startTime
  if ← IO.hasFinished reading then
    let (server, due) ← withFiles (fun disk => server.advance disk time) [] [] []
    say output due
    match reading.get with
    | .error _ | .ok none => pure ()
    | .ok (some incoming) =>
      let listed ← match incoming with
        | .call call => if call.method = "initialized" then listRoots server.roots else pure []
        | _ => pure []
      let (server, answer) ← withFiles (fun disk => server.receive disk incoming) listed [] []
      say output answer
      if server.lifecycle = .exited then pure ()
      else serve input output startTime server (← IO.asTask (readIncoming input))
  else if server.deadline?.any fun deadline => deadline ≤ time then
    let (server, due) ← withFiles (fun disk => server.advance disk time) [] [] []
    say output due
    serve input output startTime server reading
  else
    IO.sleep 5
    serve input output startTime server reading

end StoryScript.Main

open StoryScript StoryScript.Main in
def main (arguments : List String) : IO UInt32 := do
  match CommandLine.read arguments with
  | .error error =>
    IO.eprintln ("error: " ++ error.message ++ "\n\nFor more information, try '--help'.")
    pure 2
  | .ok .printHelp => do
    IO.print CommandLine.helpText
    pure 0
  | .ok .printVersion => do
    IO.print CommandLine.versionText
    pure 0
  | .ok (.serve config) => do
    let input ← IO.getStdin
    let output ← IO.getStdout
    serve input output (← IO.monoMsNow) { config } (← IO.asTask (readIncoming input))
    pure 0
