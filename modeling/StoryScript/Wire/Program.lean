import StoryScript.Wire.Context
import StoryScript.Wire.Position

/-!
Compiled programs as JSON.
-/

namespace StoryScript

open Json.Decoder

open Json (Decoder Fault Record)

namespace DiagnosticCode

def toJson : DiagnosticCode → Json
  | number value => .ofInt value.toInt
  | text value => .string value

def ofJson : Decoder DiagnosticCode
  | .string value => .ok (text value)
  | json => (word32 "i32" json).map number

end DiagnosticCode

/-- A range within a script. -/
def Range.locationJson (range : Range) (uri : Uri) : Json :=
  .object [("uri", uri.toJson), ("range", range.toJson)]

namespace RelatedInformation

def toJson (related : RelatedInformation) : Json :=
  .object
    [("location", related.range.locationJson related.uri), ("message", .string related.message)]

def ofJson : Decoder RelatedInformation := fun json => do
  let record ← Record.ofJson "related information" ["location", "message"] json
  let location (json : Json) : Except Fault (Uri × Range) := do
    let record ← Record.ofJson "a location" ["uri", "range"] json
    pure (← record.required "uri" Uri.ofJson, ← record.required "range" Range.ofJson)
  let (uri, range) ← record.required "location" location
  pure ⟨uri, range, ← record.required "message" text⟩

end RelatedInformation

namespace Diagnostic

def toJson (diagnostic : Diagnostic) : Json :=
  Json.ofOptions
    [("range", some diagnostic.range.toJson),
      ("severity", diagnostic.severity.map fun severity => .ofInt severity.toInt),
      ("code", diagnostic.code.map DiagnosticCode.toJson),
      ("codeDescription", diagnostic.description.map fun uri => .object [("href", uri.toJson)]),
      ("source", diagnostic.source.map .string),
      ("message", some (.string diagnostic.message)),
      ("relatedInformation", diagnostic.related.map (Json.ofList RelatedInformation.toJson)),
      ("tags", diagnostic.tags.map (Json.ofList fun tag => .ofInt tag.toInt)),
      ("data", diagnostic.data)]

def ofJson : Decoder Diagnostic := fun json => do
  let record ← Record.ofJson "a diagnostic"
    ["range", "severity", "code", "codeDescription", "source", "message", "relatedInformation",
      "tags", "data"] json
  let href (json : Json) : Except Fault Uri := do
    let record ← Record.ofJson "a description" ["href"] json
    record.required "href" Uri.ofJson
  pure
    { range := ← record.required "range" Range.ofJson
      severity := ← record.nullable "severity" (word32 "i32")
      code := ← record.nullable "code" DiagnosticCode.ofJson
      description := ← record.nullable "codeDescription" href
      source := ← record.nullable "source" text
      message := ← record.required "message" text
      related := ← record.nullable "relatedInformation" (list RelatedInformation.ofJson)
      tags := ← record.nullable "tags" (list (word32 "i32"))
      data := ← record.nullable "data" any }

end Diagnostic

namespace Program

def toJson (program : Program) : Json :=
  .object
    [("root", Json.ofOption Uri.toJson program.root),
      ("scripts", program.scripts.toJson Json.ofVersion),
      ("diagnostics", program.diagnostics.toJson (Json.ofList Diagnostic.toJson)),
      ("context", program.context.toJson)]

def ofJson : Decoder Program := fun json => do
  let record ← Record.ofJson "a program" ["root", "scripts", "diagnostics", "context"] json
  pure
    { root := ← record.nullable "root" Uri.ofJson
      scripts := ← record.defaulted "scripts" Table.empty
        (table Uri.ofJson version)
      diagnostics := ← record.defaulted "diagnostics" Table.empty
        (table Uri.ofJson (list Diagnostic.ofJson))
      context := ← record.defaulted "context" Context.empty Context.ofJson }

end Program

end StoryScript
