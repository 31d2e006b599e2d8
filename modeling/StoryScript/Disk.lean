import StoryScript.Uri.File

/-!
The files that scripts are read from, where no open document holds them.
-/

namespace StoryScript

/-- A file, by the names in its path from the root. -/
structure DiskFile where
  path : List String
  content : List UInt8
deriving DecidableEq, Inhabited

structure Disk where
  files : List DiskFile
deriving DecidableEq, Inhabited

namespace Disk

def empty : Disk := ⟨[]⟩

/-- Whether a place is a directory: the root, or one that holds a file at some depth. -/
def isDirectory (disk : Disk) (place : List String) : Bool :=
  place = [] || disk.files.any fun file =>
    place.isPrefixOf file.path && place.length < file.path.length

/-- Whether a place is a file or a directory. -/
def contains (disk : Disk) (place : List String) : Bool :=
  disk.isDirectory place || disk.files.any fun file => file.path = place

/-- Follows the components of a path from a place. Whatever has a component behind it must be a
directory, even if the component is empty or a dot; two dots lead to the directory above. -/
def follow? (disk : Disk) (place : List String) : (components : List String) → Option (List String)
  | [] => some place
  | component :: rest =>
    if !disk.isDirectory place then none
    else if component = "" ∨ component = "." then disk.follow? place rest
    else if component = ".." then disk.follow? place.dropLast rest
    else if disk.contains (place ++ [component]) then disk.follow? (place ++ [component]) rest
    else none

/-- The text of the file that a uri names. There is none for a directory, or for a file whose
content is not UTF-8. -/
def read? (disk : Disk) (uri : Uri) : Option String := do
  let place ← disk.follow? [] (← uri.pathComponents?)
  let file ← disk.files.find? fun file => file.path = place
  Percent.utf8? file.content

/-- The uris of the files in a directory, at any depth, or of the file that a path leads to. They
show the path as it was given. -/
def filesUnder (disk : Disk) (components : List String) : List Uri :=
  match disk.follow? [] components with
  | none => []
  | some place =>
    let shown := components.filter fun component => component ≠ "" ∧ component ≠ "."
    (disk.files.filter fun file => place.isPrefixOf file.path).map fun file =>
      Uri.ofFilePath (shown ++ file.path.drop place.length)

/-- The uris of the files in the directory that a uri names. -/
def filesUnderUri (disk : Disk) (uri : Uri) : List Uri :=
  match uri.pathComponents? with
  | some components => disk.filesUnder components
  | none => []

end Disk

end StoryScript
