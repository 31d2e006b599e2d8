import StoryScript.Table
import StoryScript.Text.Bytes

/-!
Uris in normal form. A uri is its text: it is compared, ordered and printed by the text, and its
parts are read off the text.
-/

namespace StoryScript

/-- Where a uri's path is to be found. -/
structure Authority where
  /-- User and password, `user:password`, or nothing. -/
  credentials : String := ""
  host : String
  port : Option Nat := none
deriving DecidableEq, Inhabited

def Authority.text (authority : Authority) : String :=
  (if authority.credentials = "" then "" else authority.credentials ++ "@") ++ authority.host ++
    match authority.port with
    | none => ""
    | some port => ":" ++ Nat.repr port

inductive UriPath where
  /-- Text without hierarchy, as in `untitled:Untitled-1`. -/
  | rootless (text : String)
  /-- Segments, each behind a slash. -/
  | rooted (segments : List String)
deriving DecidableEq, Inhabited

def UriPath.text : UriPath → String
  | rootless text => text
  | rooted segments => String.join (segments.map ("/" ++ ·))

structure UriParts where
  scheme : String
  authority : Option Authority := none
  path : UriPath
  query : Option String := none
  fragment : Option String := none
deriving DecidableEq, Inhabited

/-- What stands before the path. A path that starts with two slashes is kept from being taken for
an authority. -/
def UriParts.authorityText (parts : UriParts) : String :=
  match parts.authority, parts.path with
  | some authority, _ => "//" ++ authority.text
  | none, .rooted ("" :: _ :: _) => "/."
  | none, _ => ""

def UriParts.text (parts : UriParts) : String :=
  parts.scheme ++ ":" ++ parts.authorityText ++ parts.path.text ++
    (match parts.query with | none => "" | some query => "?" ++ query) ++
    (match parts.fragment with | none => "" | some fragment => "#" ++ fragment)

namespace Authority

/-- Whether this machine is meant. -/
def isLocal (authority : Authority) : Bool :=
  authority.host = "" || authority.host = "localhost"

/-- User and password, and what follows the first at sign. -/
def splitCredentials (text : List Char) : List Char × List Char :=
  match text.span (· ≠ '@') with
  | (credentials, '@' :: place) => (credentials, place)
  | _ => ([], text)

/-- The host, and the port that stands behind the last colon. No colon within brackets has only
digits behind it. -/
def splitPort (place : List Char) : List Char × Option Nat :=
  match place.reverse.span Char.isDigit with
  | (digit :: digits, ':' :: host) =>
    (host.reverse, (String.ofList (digit :: digits).reverse).toNat?)
  | _ => (place, none)

/-- The authority that a text names. -/
def ofText (text : List Char) : Authority :=
  let (credentials, place) := splitCredentials text
  let (host, port) := splitPort place
  { credentials := String.ofList credentials, host := String.ofList host, port }

end Authority

/-- The path with a hierarchy that a text names. -/
def UriPath.ofRooted (text : List Char) : UriPath :=
  .rooted (((text.splitOn '/').drop 1).map String.ofList)

/-- The authority and the path that a text names. -/
def UriParts.placeOf : List Char → Option Authority × UriPath
  | '/' :: '/' :: place =>
    let (authority, path) := place.span (· ≠ '/')
    (some (Authority.ofText authority), .ofRooted path)
  | '/' :: '.' :: '/' :: '/' :: path => (none, .ofRooted ('/' :: '/' :: path))
  | '/' :: path => (none, .ofRooted ('/' :: path))
  | path => (none, .rootless (String.ofList path))

/-- The parts of a uri's text. -/
def UriParts.ofText (text : String) : UriParts :=
  let (scheme, rest) := text.toList.span (· ≠ ':')
  let (front, fragment) := (rest.drop 1).span (· ≠ '#')
  let (front, query) := front.span (· ≠ '?')
  let (authority, path) := placeOf front
  { scheme := String.ofList scheme
    authority
    path
    query := query.head?.map fun _ => String.ofList (query.drop 1)
    fragment := fragment.head?.map fun _ => String.ofList (fragment.drop 1) }

/-- A uri, by its text in normal form. -/
@[ext] structure Uri where
  text : String
deriving DecidableEq

namespace Uri

def ofParts (parts : UriParts) : Uri :=
  ⟨parts.text⟩

instance : Inhabited Uri := ⟨ofParts default⟩

instance : Named Uri := ⟨text⟩

def parts (uri : Uri) : UriParts :=
  UriParts.ofText uri.text

/-- The segments of the path, if it has a hierarchy. -/
def segments? (uri : Uri) : Option (List String) :=
  match uri.parts.path with
  | .rootless _ => none
  | .rooted segments => some segments

end Uri

end StoryScript
