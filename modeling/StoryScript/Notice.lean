import StoryScript.Message
import StoryScript.Wire.Program
import StoryScript.Wire.Shape

/-!
What a compiler is told and asked: notices of what happens to open documents, and requests for
programs.
-/

namespace StoryScript

open Json (Decoder Fault Record)

/-- What happens to an open document. -/
inductive Notice where
  | opened (uri : Uri) (version : Version) (text : String)
  | changed (uri : Uri) (version : Version) (changes : List Change)
  | closed (uri : Uri)
deriving DecidableEq, Inhabited

namespace Notice

def uri : Notice → Uri
  | opened uri _ _ | changed uri _ _ | closed uri => uri

def method : Notice → String
  | opened _ _ _ => Message.openMethod
  | changed _ _ _ => Message.changeMethod
  | closed _ => Message.closeMethod

def params : Notice → Json
  | opened uri version text =>
    .object
      [("uri", uri.toJson), ("version", Json.ofVersion version), ("text", .string text)]
  | changed uri version changes =>
    .object
      [("uri", uri.toJson), ("version", Json.ofVersion version),
        ("contentChanges", Json.ofList Change.toJson changes)]
  | closed uri => .object [("uri", uri.toJson)]

def openedOf : Decoder Notice := fun json => do
  let record ← Record.ofJson "an open document" ["uri", "version", "text"] json
  pure (opened (← record.required "uri" Uri.ofJson) (← record.required "version" Decoder.version)
    (← record.required "text" Decoder.text))

def changedOf : Decoder Notice := fun json => do
  let record ← Record.ofJson "a changed document" ["uri", "version", "contentChanges"] json
  pure (changed (← record.required "uri" Uri.ofJson) (← record.required "version" Decoder.version)
    (← record.required "contentChanges" (Decoder.list Change.ofJson)))

def closedOf : Decoder Notice := fun json => do
  let record ← Record.ofJson "a closed document" ["uri"] json
  pure (closed (← record.required "uri" Uri.ofJson))

/-- The notice that a notification stands for. -/
def ofNotification? (method : String) (params : Json) : Option Notice :=
  if method = Message.openMethod then (openedOf params).toOption
  else if method = Message.changeMethod then (changedOf params).toOption
  else if method = Message.closeMethod then (closedOf params).toOption
  else none

end Notice

/-- What a compiler is asked: the program that starts from a script. -/
def compileParams (uri : Uri) : Json :=
  .object [("uri", uri.toJson)]

def compileParamsOf : Decoder Uri :=
  (Shape.record "CompileParams" [.need "uri" .uri]).reading fun json => do
    let record ← Record.ofJson "a compile" ["uri"] json
    record.required "uri" Uri.ofJson

/-- How far a compile has come: a script, and how many have been compiled by then. -/
structure CompileProgress where
  uri : Uri
  compiled : Nat
deriving DecidableEq, Inhabited

namespace CompileProgress

def toJson (progress : CompileProgress) : Json :=
  .object [("uri", progress.uri.toJson), ("compiled", .ofNat progress.compiled)]

def ofJson : Decoder CompileProgress := fun json => do
  let record ← Record.ofJson "a compile's progress" ["uri", "compiled"] json
  pure ⟨← record.required "uri" Uri.ofJson, ← record.required "compiled" Decoder.count⟩

end CompileProgress

end StoryScript
