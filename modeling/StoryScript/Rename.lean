import StoryScript.Search
import StoryScript.Text.Letter

/-!
Renaming a symbol: new text for each of its occurrences, and new names for the files of the assets
it stands for.
-/

namespace StoryScript

/-- New text for some ranges of a document. -/
structure DocumentEdit where
  uri : Uri
  version : Option Version
  ranges : List Range
  text : String
deriving DecidableEq, Inhabited

/-- A new place for a file. -/
structure FileMove where
  source : Uri
  target : Uri
deriving DecidableEq, Inhabited

/-- All that a rename changes. -/
structure Rename where
  edits : List DocumentEdit
  moves : List FileMove
deriving DecidableEq, Inhabited

namespace Rename

/-- Whether a text can name a symbol: letters, digits and underscores, no digit in front. -/
def isValidName (name : String) : Bool :=
  match name.toList with
  | [] => false
  | first :: rest =>
    (Text.isAlphabetic first || first == '_') &&
      rest.all fun c => Text.isAlphanumeric c || c == '_'

/-- Where an asset's file goes when the asset gets another name: its directory, its extension and
what its name has behind the asset's name stay. -/
def movedAsset? (file : Uri) (old new : String) : Option Uri := do
  let stem ← file.fileStem?
  let style ← Text.dropStart? old.toList stem.toList
  let segments ← file.segments?
  let last ← segments.getLast?
  let ending := match last.toList.reverse.span (· ≠ '.') with
    | (extension, _ :: _) => "." ++ String.ofList extension.reverse
    | (_, []) => ""
  file.join? (new ++ String.ofList style ++ ending)

/-- The moves of the files that hold an asset. -/
def assetMoves (workspace : Workspace) (new id : String) : List FileMove :=
  match AssetKind.ofId? id with
  | none => []
  | some (_, name) =>
    (workspace.findAssets id).filterMap fun file =>
      (movedAsset? file name new).map fun target => ⟨file, target⟩

/-- The edits of a search's occurrences, one for each document. The files of its assets are not
edited. -/
def documentEdits (store : Store) (search : Search) (new : String) : List DocumentEdit :=
  let located := (search.occurrences.map Occurrence.location).filter fun location =>
    location.uri ∉ search.assets
  let byUri : Table Uri (List Range) := located.foldl (fun table location =>
    table.alter location.uri fun ranges => ranges.getD [] ++ [location.range]) Table.empty
  byUri.entries.map fun (uri, ranges) => ⟨uri, store.version? uri, ranges, new⟩

/-- The changes that give the symbol at a position a new name; none if the name is no name, or if
no text would change. -/
def at? (store : Store) (workspace : Workspace) (program : Option Program)
    (builtins : Keys String) (moveAssets : Bool) (uri : Uri) (position : Position)
    (new : String) : Option Rename :=
  if isValidName new then
    let search := Search.find store workspace program builtins SearchFilter.rename uri position
    let edits := documentEdits store search new
    if edits = [] then none
    else some
      { edits
        moves := if moveAssets then search.ids.keys.flatMap (assetMoves workspace new) else [] }
  else none

/-- The range of the symbol at a position, if it can be renamed. -/
def rangeAt? (store : Store) (uri : Uri) (position : Position) : Option Range := do
  let document ← store.get? uri
  let symbol ← document.symbolAt? position
  pure (Range.ofSpan document.text.toList symbol.item.span)

end Rename

end StoryScript
