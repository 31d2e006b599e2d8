import StoryScript.Text.Blank
import StoryScript.Uri.Basic
import StoryScript.Uri.Host

/-!
Reading a uri, alone (`Uri.parse`) or relative to another (`Uri.join`). Both give the uri in its
normal form: the scheme in lower case, dot segments resolved, and what may not stand in a part
percent-encoded.
-/

namespace StoryScript.Uri

/-- How the parts of a uri are separated, by its scheme. -/
inductive SchemeKind where
  | file
  /-- The schemes of the web. -/
  | web
  | other
deriving DecidableEq

namespace SchemeKind

def of (scheme : String) : SchemeKind :=
  if scheme = "file" then file
  else if scheme ∈ ["http", "https", "ws", "wss", "ftp"] then web
  else other

/-- Whether a backslash separates segments too, and a path is never empty. -/
def isSpecial : SchemeKind → Bool
  | other => false
  | _ => true

def isSlash (kind : SchemeKind) (c : Char) : Bool :=
  c == '/' || (kind.isSpecial && c == '\\')

end SchemeKind

/-- Tabs and line breaks, which stand for nothing. -/
def isIgnored (c : Char) : Bool :=
  c == '\t' || c == '\n' || c == '\r'

/-- The text without ignored characters, but for a tab where they follow a colon: there they end
the name of a drive. -/
def dropIgnored : List Char → List Char
  | [] => []
  | c :: rest =>
    if isIgnored c then dropIgnored rest
    else if c == ':' && rest.head?.any isIgnored then c :: '\t' :: dropIgnored rest
    else c :: dropIgnored rest

/-- The text without the tabs that `dropIgnored` leaves. -/
def plain (text : List Char) : List Char :=
  text.filter (· ≠ '\t')

/-- The text without control characters and spaces at its ends, and without ignored characters. -/
def clean (text : List Char) : List Char :=
  let isEdge : Char → Bool := fun c => c.toNat ≤ 0x20
  dropIgnored (Text.trimEndWhile isEdge (text.dropWhile isEdge))

/-- The scheme of a text, in lower case, and what follows its colon. -/
def splitScheme? (text : List Char) : Option (String × List Char) :=
  let scheme := text.takeWhile fun c => c.isAlphanum || c == '+' || c == '-' || c == '.'
  match scheme, text.drop scheme.length with
  | first :: _, ':' :: rest =>
    if first.isAlpha then
      some (String.ofList (scheme.map Char.toLower), rest.dropWhile (· == '\t'))
    else none
  | _, _ => none

def endsPath (c : Char) : Bool := c == '?' || c == '#'

/-- The query and the fragment of a text, which starts with the mark of one of them if it is not
empty. -/
def splitTail (isSpecial : Bool) (text : List Char) : Option String × Option String :=
  let afterQuery := text.dropWhile (· ≠ '#')
  let query := match text with
    | '?' :: rest =>
      some (Percent.encode (Percent.inQuery isSpecial) (plain (rest.takeWhile (· ≠ '#'))))
    | _ => none
  let fragment := match afterQuery with
    | '#' :: rest => some (Percent.encode Percent.inFragment (plain rest))
    | _ => none
  (query, fragment)

/-- A letter and a colon (or a bar, before normalisation) name a drive. -/
def isDrive (segment : String) : Bool :=
  match segment.toList with
  | [letter, mark] => letter.isAlpha && (mark == ':' || mark == '|')
  | _ => false

def isNormalDrive (segment : String) : Bool :=
  match segment.toList with
  | [letter, ':'] => letter.isAlpha
  | _ => false

/-- Whether a segment starts with a drive's name that ends there or at a backslash. -/
def opensWithDrive (segment : String) : Bool :=
  match segment.toList with
  | letter :: mark :: rest =>
    letter.isAlpha && (mark == ':' || mark == '|') && (rest.isEmpty || rest.head? == some '\\')
  | _ => false

/-- Whether a path's text starts with a drive. -/
def startsWithDrive (kind : SchemeKind) (text : List Char) : Bool :=
  isDrive (String.ofList (plain (text.takeWhile fun c => !(kind.isSlash c || endsPath c))))

def lower (segment : String) : String :=
  String.ofList (segment.toList.map Char.toLower)

def isDot (segment : String) : Bool :=
  lower segment ∈ [".", "%2e"]

def isDoubleDot (segment : String) : Bool :=
  lower segment ∈ ["..", ".%2e", "%2e.", "%2e%2e"]

/-- A path that segments are being added to. -/
structure OpenPath where
  /-- The segments that a slash ends. -/
  done : List String := []
  /-- What stands behind the last slash. -/
  tail : String := ""
  /-- Whether a drive has been named at the front. -/
  hasDrive : Bool := false

namespace OpenPath

/-- Ends what stands behind the last slash with another one. -/
def close (path : OpenPath) : OpenPath :=
  { path with done := path.done ++ [path.tail], tail := "" }

/-- Goes up one segment, but never from the root or out of a drive. -/
def up (path : OpenPath) (closed : Bool) : OpenPath :=
  if path.tail ≠ "" then if closed then path.close else path
  else if path.done.getLast?.any opensWithDrive then path
  else { path with done := path.done.dropLast }

/-- Adds the text of a segment behind the last slash. At the front of a file's path a drive gets its
colon, and one that an ignored character follows is a segment by itself. -/
def append (kind : SchemeKind) (path : OpenPath) (raw : List Char) : OpenPath :=
  let text := Percent.encode Percent.inPath (plain raw)
  if kind = .file ∧ path.done = [] ∧ path.tail = "" then
    match raw with
    | letter :: ':' :: '\t' :: next :: rest =>
      if letter.isAlpha then
        { path with
          done := [String.ofList [letter, ':']]
          tail := Percent.encode Percent.inPath (plain (next :: rest)) }
      else { path with tail := text }
    | letter :: _ =>
      if isDrive text then { path with tail := String.ofList [letter, ':'], hasDrive := true }
      else { path with tail := text }
    | [] => path
  else { path with tail := path.tail ++ text }

/-- Adds a segment, which is closed if a slash follows it. A dot stays, a double dot goes up, and
either one in the last place leaves a path that ends with a slash. -/
def addSegment (kind : SchemeKind) (path : OpenPath) (closed : Bool) (raw : List Char) :
    OpenPath :=
  let text := Percent.encode Percent.inPath (plain raw)
  let path :=
    if kind = .file ∧ path.done = [] ∧ isNormalDrive path.tail ∧ text ≠ "" then path.close
    else path
  if isDoubleDot text then path.up closed
  else if isDot text then if path.tail = "" then path else path.close
  else
    let path := path.append kind raw
    if closed then path.close else path

/-- Adds segments one by one, with slashes between them. -/
def descend (kind : SchemeKind) (path : OpenPath) : List (List Char) → OpenPath
  | [] => path
  | [last] => path.addSegment kind false last
  | segment :: next :: rest => (path.addSegment kind true segment).descend kind (next :: rest)

def segments (path : OpenPath) : List String :=
  path.done ++ [path.tail]

/-- The path that the text of a relative path leads to. -/
def follow (kind : SchemeKind) (path : OpenPath) (text : List Char) : OpenPath :=
  path.descend kind (text.splitOnP kind.isSlash)

end OpenPath

/-- The segments of a file's path without empty ones at its front. -/
def dropEmptyFront : List String → List String
  | "" :: next :: rest => dropEmptyFront (next :: rest)
  | segments => segments

/-- The path of a uri whose segments are complete. -/
def OpenPath.toPath (kind : SchemeKind) (path : OpenPath) : UriPath :=
  .rooted (if kind = .file then dropEmptyFront path.segments else path.segments)

/-- A path's text without the slash it starts with. -/
def dropSlash (kind : SchemeKind) : List Char → List Char
  | c :: rest => if kind.isSlash c then rest else c :: rest
  | [] => []

/-- The uri whose path, query and fragment stand in a text, the path continuing another. -/
def withPathFrom (parts : UriParts) (start : OpenPath) (text : List Char) : Uri :=
  let kind := SchemeKind.of parts.scheme
  let path := text.takeWhile (!endsPath ·)
  let (query, fragment) := splitTail kind.isSpecial (text.drop path.length)
  ofParts { parts with path := (start.follow kind path).toPath kind, query, fragment }

/-- The uri whose path from the root, query and fragment stand in a text. -/
def withPath (parts : UriParts) (text : List Char) : Uri :=
  let kind := SchemeKind.of parts.scheme
  if (text = [] || text.head?.any endsPath) && !kind.isSpecial then
    let (query, fragment) := splitTail false text
    ofParts { parts with path := .rooted [], query, fragment }
  else withPathFrom parts {} (dropSlash kind text)

/-- The host of a text. -/
def host (kind : SchemeKind) (text : List Char) : Except UriError String :=
  if kind.isSpecial then webHost text else otherHost text

/-- The port that a scheme has unless another is given. -/
def defaultPort? (scheme : String) : Option Nat :=
  if scheme = "http" ∨ scheme = "ws" then some 80
  else if scheme = "https" ∨ scheme = "wss" then some 443
  else if scheme = "ftp" then some 21
  else none

/-- The port of a text of digits, if it is not the scheme's own, and what follows it. A slash of
either kind ends it. -/
def splitPort (scheme : String) (text : List Char) : Except UriError (Option Nat × List Char) :=
  let digits := text.takeWhile Char.isDigit
  let rest := text.drop digits.length
  let value := digits.foldl (fun value c => value * 10 + (c.toNat - '0'.toNat)) 0
  if rest.head?.any fun c => !(c == '/' || c == '\\' || endsPath c) then .error .invalidPort
  else if UInt16.size ≤ value then .error .invalidPort
  else if digits = [] ∨ some value = defaultPort? scheme then .ok (none, rest)
  else .ok (some value, rest)

/-- The host at the front of a text, and what follows it. A colon between brackets belongs to the
host. -/
def splitHost (kind : SchemeKind) (inBrackets : Bool) : List Char → List Char × List Char
  | [] => ([], [])
  | c :: rest =>
    if kind.isSlash c || endsPath c || (c == ':' && !inBrackets) then ([], c :: rest)
    else
      let inBrackets := c == '[' || (inBrackets && c != ']')
      let (host, rest) := splitHost kind inBrackets rest
      (c :: host, rest)

/-- User and password, the last at sign before the host behind them, and what follows it. -/
def splitCredentials (kind : SchemeKind) (text : List Char) :
    Except UriError (String × List Char) :=
  let place := text.takeWhile fun c => !(kind.isSlash c || endsPath c)
  match place.reverse.span (· ≠ '@') with
  | (_, []) => .ok ("", text)
  | (_, _ :: reversed) =>
    let credentials := reversed.reverse
    let rest := text.drop (credentials.length + 1)
    if credentials = [] then
      if rest.head?.any fun c => kind.isSlash c || endsPath c then .error .emptyHost
      else .ok ("", rest)
    else
      let user := Percent.encode Percent.inCredentials (credentials.takeWhile (· ≠ ':'))
      let password :=
        Percent.encode Percent.inCredentials ((credentials.dropWhile (· ≠ ':')).drop 1)
      .ok (if password = "" then user else user ++ ":" ++ password, rest)

/-- The authority at the front of a text, and what follows it. -/
def splitAuthority (scheme : String) (text : List Char) :
    Except UriError (Authority × List Char) := do
  let kind := SchemeKind.of scheme
  let (credentials, rest) ← splitCredentials kind text
  let (name, rest) := splitHost kind false rest
  if name = [] ∧ (kind.isSpecial ∨ rest.head? = some ':') then throw .emptyHost
  let host ← host kind name
  let (port, rest) ← match rest with
    | ':' :: rest => splitPort scheme rest
    | rest => pure (none, rest)
  if name = [] ∧ credentials ≠ "" then throw .emptyHost
  pure ({ credentials, host, port }, rest)

/-- The uri whose authority stands at the front of a text. Where a backslash is no slash, one that
ends the authority starts the path. -/
def afterSlashes (scheme : String) (text : List Char) : Except UriError Uri := do
  let (authority, rest) ← splitAuthority scheme (plain text)
  pure (withPath { scheme, authority := some authority, path := default } rest)

/-- A file without a host. -/
def localFile : UriParts :=
  { scheme := "file", authority := some { host := "" }, path := default }

/-- The file whose host stands at the front of a text. A drive is no host, a path that starts with
a drive needs none, and the local host is the empty one. -/
def afterFileSlashes (text : List Char) : Except UriError Uri := do
  let place := text.takeWhile fun c => !(SchemeKind.file.isSlash c || endsPath c)
  let rest := text.drop place.length
  let name := plain place
  if isDrive (String.ofList name) then pure (withPathFrom localFile {} text)
  else if name = [] then pure (withPathFrom localFile {} rest)
  else
    let host ← webHost name
    let path := dropSlash .file (rest.takeWhile (!endsPath ·))
    if host = "localhost" then pure (withPathFrom localFile {} rest)
    else if (({} : OpenPath).follow .file path).hasDrive then pure (withPath localFile rest)
    else pure (withPath { localFile with authority := some { host } } rest)

/-- A uri with another fragment. -/
def withFragment (base : Uri) (text : List Char) : Uri :=
  let fragment := text.head?.map fun _ => Percent.encode Percent.inFragment (plain (text.drop 1))
  ofParts { base.parts with fragment }

/-- A uri with another query and fragment. -/
def withTail (base : Uri) (text : List Char) : Uri :=
  let kind := SchemeKind.of base.parts.scheme
  let (query, fragment) := splitTail kind.isSpecial text
  ofParts { base.parts with query, fragment }

/-- The directory of a path. A drive of a file stays in place. -/
def directory (kind : SchemeKind) (segments : List String) : OpenPath :=
  match segments.getLast? with
  | none => {}
  | some last =>
    { done := segments.dropLast
      tail := if kind = .file ∧ isNormalDrive last then last else "" }

/-- The uri that a relative path leads to, from the directory of another. -/
def sibling (base : Uri) (text : List Char) : Uri :=
  let kind := SchemeKind.of base.parts.scheme
  withPathFrom base.parts (directory kind (base.segments?.getD [])) text

/-- The file at a path from the root, on the drive or the host of another file. -/
def rootedFile (base : Uri) (text : List Char) : Uri :=
  let rest := dropSlash .file text
  if startsWithDrive .file rest then withPathFrom localFile {} rest
  else
    match base.segments?.bind List.head? with
    | some first =>
      if isNormalDrive first then withPathFrom localFile { tail := first } text
      else withPathFrom base.parts {} rest
    | none => withPathFrom base.parts {} rest

/-- The file that a text without a scheme leads to, from another file. -/
def relativeFile (base : Uri) (text : List Char) : Except UriError Uri :=
  match text with
  | first :: rest =>
    if SchemeKind.file.isSlash first then
      if rest.head?.any SchemeKind.file.isSlash then afterFileSlashes (rest.drop 1)
      else .ok (base.rootedFile text)
    else if startsWithDrive .file text then .ok (withPathFrom localFile {} text)
    else .ok (base.sibling text)
  | [] => .ok (base.sibling text)

/-- The uri that a text without a scheme leads to, from one with a hierarchy that is no file. Slashes
of either kind count. -/
def relativePlace (base : Uri) (text : List Char) : Except UriError Uri :=
  let rest := text.dropWhile fun c => c == '/' || c == '\\'
  match text.length - rest.length, text with
  | 0, _ => .ok (base.sibling text)
  | 1, _ => .ok (withPathFrom base.parts {} rest)
  | _, '/' :: '/' :: after => afterSlashes base.parts.scheme after
  | _, _ => afterSlashes base.parts.scheme rest

/-- The uri that a text without a scheme leads to, from one with a hierarchy. -/
def relative (base : Uri) (text : List Char) : Except UriError Uri :=
  match text with
  | [] => .ok (ofParts { base.parts with fragment := none })
  | '#' :: _ => .ok (base.withFragment text)
  | '?' :: _ => .ok (base.withTail text)
  | _ => if base.parts.scheme = "file" then base.relativeFile text else base.relativePlace text

/-- The uri of a text with a scheme, perhaps relative to one with the same scheme. -/
def withScheme (base : Option Uri) (scheme : String) (text : List Char) : Except UriError Uri :=
  let kind := SchemeKind.of scheme
  let base := base.filter fun base => base.parts.scheme = scheme && base.segments?.isSome
  match kind with
  | .file =>
    match base, text with
    | some base, _ => base.relative text
    | none, first :: second :: rest =>
      if kind.isSlash first && kind.isSlash second then afterFileSlashes rest
      else .ok (withPath localFile text)
    | none, _ => .ok (withPath localFile text)
  | .web =>
    let rest := text.dropWhile kind.isSlash
    match base with
    | some base =>
      if text.length - rest.length < 2 then base.relative text else afterSlashes scheme rest
    | none => afterSlashes scheme rest
  | .other =>
    match text with
    | '/' :: '/' :: rest => afterSlashes scheme rest
    | '/' :: _ => .ok (withPath { scheme, path := default } text)
    | _ =>
      let path := text.takeWhile (!endsPath ·)
      let (query, fragment) := splitTail false (text.drop path.length)
      let path := .rootless (Percent.encode Percent.isControl (plain path))
      .ok (ofParts { scheme, path, query, fragment })

/-- The uri of a text. Without a scheme it has none. -/
def parse (text : String) : Except UriError Uri :=
  match splitScheme? (clean text.toList) with
  | some (scheme, rest) => withScheme none scheme rest
  | none => .error .noBase

/-- The uri of a text that may be relative to another. One without hierarchy takes a fragment
only. -/
def join (base : Uri) (text : String) : Except UriError Uri :=
  let text := clean text.toList
  match splitScheme? text with
  | some (scheme, rest) => withScheme (some base) scheme rest
  | none =>
    match base.segments?, text with
    | none, '#' :: _ => .ok (base.withFragment text)
    | none, _ => .error .rootlessBase
    | some _, _ => base.relative text

def join? (base : Uri) (text : String) : Option Uri :=
  (base.join text).toOption

/-- The uri that a path written in a script leads to. -/
def resolve? (base : Uri) (path : String) : Option Uri :=
  let path := Text.trim path
  if path = "" then none else base.join? path

end StoryScript.Uri
