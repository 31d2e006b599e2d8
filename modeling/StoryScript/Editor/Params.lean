import StoryScript.Editor.Schema.Request

/-!
The parameters of an editor's calls. Those of a call that is answered are checked against their shape
before they are read, so that the answer can say what is wrong with them.
-/

namespace StoryScript.Params

open Json.Decoder

open Json (Decoder Fault Record)

/-- The document that a call is about. -/
def document : Decoder Uri := fun json => do
  let record ← Record.ofJson "a document" ["uri"] json
  record.required "uri" Uri.ofJson

/-- A place in a document. -/
structure Place where
  uri : Uri
  position : Position
deriving DecidableEq, Inhabited

/-- The fields of a place. -/
def placeIn (record : Record) : Except Fault Place := do
  pure ⟨← record.required "textDocument" document, ← record.required "position" Position.ofJson⟩

def place : Decoder Place :=
  Schema.place.reading fun json => do
    placeIn (← Record.ofJson "a place" ["textDocument", "position"] json)

def definition : Decoder Place :=
  Schema.definition.reading fun json => do placeIn (← Record.ofObject "a place" [] json)

structure References where
  place : Place
  includeDeclaration : Bool
deriving DecidableEq, Inhabited

def references : Decoder References :=
  Schema.references.reading fun json => do
    let record ← Record.ofObject "a search" [] json
    let includeDeclaration ← record.required "context" fun json => do
      let record ← Record.ofJson "a filter" ["includeDeclaration"] json
      record.required "includeDeclaration" flag
    pure ⟨← placeIn record, includeDeclaration⟩

structure Rename where
  place : Place
  newName : String
deriving DecidableEq, Inhabited

def rename : Decoder Rename :=
  Schema.rename.reading fun json => do
    let record ← Record.ofObject "a renaming" [] json
    pure ⟨← placeIn record, ← record.required "newName" text⟩

/-- A document as it is opened. -/
structure Opened where
  uri : Uri
  version : Version
  text : String
deriving DecidableEq, Inhabited

def opened : Decoder Opened := fun json => do
  let record ← Record.ofJson "an opened document" ["textDocument"] json
  record.required "textDocument" fun json => do
    let record ← Record.ofJson "a document" ["uri", "languageId", "version", "text"] json
    let _ ← record.required "languageId" text
    let text ← record.required "text" text
    let uri ← record.required "uri" Uri.ofJson
    pure ⟨uri, ← record.required "version" version, text⟩

structure Changed where
  uri : Uri
  version : Version
  changes : List Change
deriving DecidableEq, Inhabited

def changed : Decoder Changed := fun json => do
  let record ← Record.ofJson "a changed document" ["textDocument", "contentChanges"]
    json
  let changes ← record.required "contentChanges" (list Change.ofJson)
  let (uri, version) ← record.required "textDocument" fun json => do
    let record ← Record.ofJson "a document" ["uri", "version"] json
    pure (← record.required "uri" Uri.ofJson, ← record.required "version" version)
  pure ⟨uri, version, changes⟩

def closed : Decoder Uri := fun json => do
  let record ← Record.ofJson "a closed document" ["textDocument"] json
  record.required "textDocument" document

/-- Something that happened to a file. -/
structure FileEvent where
  uri : Uri
  isDeleted : Bool
deriving DecidableEq, Inhabited

def fileEvent : Decoder FileEvent := fun json => do
  let record ← Record.ofJson "a file event" ["uri", "type"] json
  let kind ← record.required "type" (word32 "i32")
  pure ⟨← record.required "uri" Uri.ofJson, kind = 3⟩

def fileEvents : Decoder (List FileEvent) := fun json => do
  let record ← Record.ofJson "file events" ["changes"] json
  record.required "changes" (list fileEvent)

/-- What a session starts from. -/
structure Initialize where
  options : Option Json
  rootUri : Option Uri
  folders : Option (List Uri)
deriving DecidableEq, Inhabited

namespace Initialize

/-- The directories that the editor works in: the workspace's folders, if it names any list of
them, or else the root. -/
def roots (params : Initialize) : List Uri :=
  params.folders.getD params.rootUri.toList

def fieldNames : List String :=
  ["processId", "rootPath", "rootUri", "initializationOptions", "capabilities", "trace",
    "workspaceFolders", "clientInfo", "locale"]

def folder : Decoder Uri := fun json => do
  let record ← Record.ofJson "a folder" ["uri", "name"] json
  record.required "uri" Uri.ofJson

def ofJson : Decoder Initialize :=
  Schema.starting.reading fun json => do
    let record ← Record.ofJson "a start" fieldNames json
    pure ⟨← record.optional "initializationOptions" any,
      ← record.optional "rootUri" Uri.ofJson,
      ← record.optional "workspaceFolders" (list folder)⟩

end Initialize

def initialized : Decoder Unit := fun json => do
  let _ ← Record.ofJson "an object" [] json

end StoryScript.Params
