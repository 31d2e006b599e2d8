import StoryScript.Asset
import StoryScript.Uri.File

/-!
The scripts and assets that are known to exist, open or not.
-/

namespace StoryScript

structure Workspace where
  /-- The file extensions of scripts. -/
  extensions : List String
  scripts : Keys Uri := Table.empty
  assets : Table Uri AssetKind := Table.empty

namespace Workspace

/-- Whether a file is a script or an asset, so that `add` keeps it. -/
def accepts (workspace : Workspace) (uri : Uri) : Bool :=
  uri.extension?.any fun extension =>
    extension ∈ workspace.extensions || (AssetKind.ofExtension? extension).isSome

/-- Makes a file known, as a script if its extension says so, else as an asset. -/
def add (workspace : Workspace) (uri : Uri) : Workspace :=
  match uri.extension? with
  | none => workspace
  | some extension =>
    if extension ∈ workspace.extensions then
      { workspace with scripts := workspace.scripts.add uri }
    else
      match AssetKind.ofExtension? extension with
      | some kind => { workspace with assets := workspace.assets.insert uri kind }
      | none => workspace

/-- Makes files known, in turn. -/
def addAll (workspace : Workspace) (uris : List Uri) : Workspace :=
  uris.foldl add workspace

/-- Forgets a file. -/
def remove (workspace : Workspace) (uri : Uri) : Workspace :=
  { workspace with
    scripts := workspace.scripts.erase uri
    assets := workspace.assets.erase uri }

def containsScript (workspace : Workspace) (uri : Uri) : Bool :=
  workspace.scripts.contains uri

/-- The files that hold an asset, in order. -/
def findAssets (workspace : Workspace) (id : String) : List Uri :=
  match AssetKind.ofId? id with
  | none => []
  | some (kind, name) =>
    (workspace.assets.entries.filter fun entry =>
      entry.2 = kind && entry.1.fileStem?.any fun stem => stem ∈ kind.stems name).map Prod.fst

end Workspace

/-- The most directories that the search for a main script goes through. -/
def maxMainScriptDepth : Nat := 64

/-- The main script in a directory: the first of the given names that is known there. -/
def mainScriptIn? (names : List String) (isKnown : Uri → Bool) (directory : Uri) : Option Uri :=
  (names.filterMap directory.join?).find? isKnown

/-- The main script in a directory or in the nearest one around it, among a number of them. -/
def mainScriptAbove? (names : List String) (isKnown : Uri → Bool) : Nat → Uri → Option Uri
  | 0, _ => none
  | depth + 1, directory =>
    match mainScriptIn? names isKnown directory with
    | some main => some main
    | none =>
      match directory.join? "../" with
      | none => none
      | some outer =>
        if outer = directory then none else mainScriptAbove? names isKnown depth outer

/-- The main script of the project that a script belongs to. -/
def mainScript? (names : List String) (isKnown : Uri → Bool) (uri : Uri) : Option Uri :=
  (uri.join? "./").bind (mainScriptAbove? names isKnown maxMainScriptDepth)

end StoryScript
