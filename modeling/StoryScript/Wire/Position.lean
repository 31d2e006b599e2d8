import StoryScript.Json.Decode
import StoryScript.Program.Basic
import StoryScript.Uri.Parse

/-!
Uris, versions, positions and edits as JSON.
-/

namespace StoryScript

open Json (Decoder Fault Record)

namespace Json.Decoder

def word32 (expected : String) : Decoder Int32 := fun json =>
  (integer Int32.minValue.toInt Int32.maxValue.toInt expected json).map Int32.ofInt

/-- A version of a document. -/
def version : Decoder Version := word32 "i32"

/-- A line or a column. -/
def coordinate : Decoder Nat := natural 32 "u32"

end Json.Decoder

def Json.ofVersion (version : Version) : Json := .ofInt version.toInt

namespace Uri

def toJson (uri : Uri) : Json := .string uri.text

def ofJson : Decoder Uri
  | .string text =>
    match parse text with
    | .ok uri => .ok uri
    | .error error => .error (.invalidUri error text)
  | json => .error (.invalidType json "a string representing an URL")

end Uri

namespace Position

def toJson (position : Position) : Json :=
  .object [("line", .ofNat position.line), ("character", .ofNat position.character)]

def ofJson : Decoder Position := fun json => do
  let record ← Record.ofJson "struct Position" ["line", "character"] json
  let character ← record.field? "character" Decoder.coordinate
  let line ← record.field? "line" Decoder.coordinate
  pure ⟨← record.need "line" line, ← record.need "character" character⟩

end Position

namespace Range

def toJson (range : Range) : Json :=
  .object [("start", range.start.toJson), ("end", range.stop.toJson)]

def ofJson : Decoder Range := fun json => do
  let record ← Record.ofJson "struct Range" ["start", "end"] json
  let stop ← record.field? "end" Position.ofJson
  let start ← record.field? "start" Position.ofJson
  pure ⟨← record.need "start" start, ← record.need "end" stop⟩

end Range

namespace Change

def toJson (change : Change) : Json :=
  Json.ofOptions
    [("range", change.range.map Range.toJson), ("rangeLength", change.rangeLength.map .ofNat),
      ("text", some (.string change.text))]

def ofJson : Decoder Change := fun json => do
  let record ← Record.ofJson "struct TextDocumentContentChangeEvent"
    ["range", "rangeLength", "text"] json
  pure ⟨← record.nullable "range" Range.ofJson, ← record.nullable "rangeLength" Decoder.coordinate,
    ← record.required "text" Decoder.text⟩

end Change

end StoryScript
