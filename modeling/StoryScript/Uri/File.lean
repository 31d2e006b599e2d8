import StoryScript.Uri.Parse

/-!
Uris as paths of files.
-/

namespace StoryScript.Uri

/-- Whether a path ends with the name of a drive. -/
def endsWithDrive (path : List UInt8) : Bool :=
  match path.reverse with
  | mark :: letter :: _ :: _ =>
    (mark == ':'.toUInt8 || mark == '|'.toUInt8) && (Char.ofUInt8 letter).isAlpha
  | _ => false

/-- The bytes of the path that a uri names on this machine: its segments decoded, each behind a
slash, and one more slash behind a drive. A uri without segments or with a host has none. -/
def filePath? (uri : Uri) : Option (List UInt8) :=
  match uri.segments? with
  | some (first :: rest) =>
    if uri.parts.authority.all Authority.isLocal then
      let path := (first :: rest).flatMap fun segment =>
        '/'.toUInt8 :: Percent.decode segment.toList
      some (if endsWithDrive path then path ++ ['/'.toUInt8] else path)
    else none
  | _ => none

/-- The components of the path that a uri names, if they are texts. -/
def pathComponents? (uri : Uri) : Option (List String) :=
  uri.filePath?.bind fun path => (path.splitOn '/'.toUInt8).mapM Percent.utf8?

/-- The names in a path, without the empty ones and those that stay in place. -/
def pathNames (path : List UInt8) : List (List UInt8) :=
  (path.splitOn '/'.toUInt8).filter fun name => name ≠ [] ∧ name ≠ ['.'.toUInt8]

/-- A file name without its extension. A dot in front starts no extension. -/
def dropExtension (name : List UInt8) : List UInt8 :=
  match (name.reverse.dropWhile (· ≠ '.'.toUInt8)).drop 1 with
  | [] => name
  | stem => stem.reverse

/-- The name of the file without its extension. -/
def fileStem? (uri : Uri) : Option String :=
  uri.filePath?.bind fun path =>
    match (pathNames path).getLast? with
    | none => none
    | some name =>
      if name = ['.'.toUInt8, '.'.toUInt8] then none else Percent.utf8? (dropExtension name)

/-- The text behind the last dot of the last segment of the path. -/
def extension? (uri : Uri) : Option String :=
  let name := (uri.parts.path.text.toList.splitOn '/').getLast?.getD []
  match name.reverse.span (· ≠ '.') with
  | (extension, _ :: _) => some (String.ofList extension.reverse)
  | (_, []) => none

/-- The uri of a file, by the names in its path. -/
def ofFilePath (names : List String) : Uri :=
  ofParts
    { scheme := "file"
      authority := some { host := "" }
      path := .rooted (names.map fun name => Percent.encode Percent.inSegment name.toList) }

end StoryScript.Uri
