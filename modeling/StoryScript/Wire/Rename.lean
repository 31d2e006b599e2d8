import StoryScript.Rename
import StoryScript.Wire.Search

/-!
Renames as JSON.
-/

namespace StoryScript

def DocumentEdit.toJson (edit : DocumentEdit) : Json :=
  .object
    [("textDocument", .object
        [("uri", edit.uri.toJson), ("version", Json.ofOption Json.ofVersion edit.version)]),
      ("edits", Json.ofList (fun range : Range =>
        .object [("range", range.toJson), ("newText", .string edit.text)]) edit.ranges)]

def FileMove.toJson (move : FileMove) : Json :=
  .object
    [("kind", .string "rename"), ("oldUri", move.source.toJson), ("newUri", move.target.toJson)]

/-- The edits of the documents, and behind them the moves of files. -/
def Rename.toJson (rename : Rename) : Json :=
  .object
    [("documentChanges",
      .array (rename.edits.map DocumentEdit.toJson ++ rename.moves.map FileMove.toJson))]

end StoryScript
