import StoryScript.Search
import StoryScript.Wire.Program

/-!
Searches and what they find as JSON.
-/

namespace StoryScript

open Json (Decoder Fault Record)

def Location.toJson (location : Location) : Json :=
  location.range.locationJson location.uri

def Search.toJson (search : Search) : Json :=
  .object
    [("locations", Json.ofList Location.toJson search.locations),
      ("ids", Json.ofStrings search.ids.keys), ("assets", Json.ofList Uri.toJson search.assets),
      ("empty", .bool search.isEmpty), ("has_asset", .bool search.hasAsset)]

/-- A filter, by the name of a common one or by what differs from the default. -/
def SearchFilter.ofJson : Decoder SearchFilter
  | .null => .ok {}
  | .string "definitions" => .ok definitions
  | .string "rename" => .ok rename
  | json => do
    let record ← Record.ofJson "a filter"
      ["declaration", "exclude_uses", "other_files", "interdependent"] json
    let excludesUses ← record.defaulted "exclude_uses" false Decoder.flag
    pure
      { declarations := ← record.defaulted "declaration" true Decoder.flag
        uses := !excludesUses
        otherFiles := ← record.defaulted "other_files" true Decoder.flag
        interdependent := ← record.defaulted "interdependent" false Decoder.flag }

end StoryScript
