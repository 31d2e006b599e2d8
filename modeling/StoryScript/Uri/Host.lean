import StoryScript.Uri.Address
import StoryScript.Uri.Domain.Name
import StoryScript.Uri.Error
import StoryScript.Uri.Percent

/-!
The hosts of uris. A host is an address in brackets, a name, or, where the scheme is one of the
web's, an address of numbers and dots.
-/

namespace StoryScript.Uri

/-- The address between brackets. -/
def bracketed (text : List Char) : Except UriError String :=
  match (if text.getLast? = some ']' then Address.long? ((text.drop 1).dropLast) else none) with
  | some pieces => .ok ("[" ++ Address.longText pieces ++ "]")
  | none => .error .invalidIpv6

/-- The name or the address of a host on the web: percent-encoded bytes stand for themselves, and the
name is written in ASCII. -/
def webHost (text : List Char) : Except UriError String :=
  match text with
  | '[' :: _ => bracketed text
  | _ =>
    match (Percent.utf8? (Percent.decode text)).bind Domain.toAscii? with
    | none => .error .invalidDomain
    | some name =>
      if name = "" then .error .emptyHost
      else if Address.endsInNumber name.toList then
        match Address.short? name.toList with
        | some address => .ok (Address.shortText address)
        | none => .error .invalidIpv4
      else .ok name

def isForbiddenInHost (c : Char) : Bool :=
  c == '\x00' || c == '\t' || c == '\n' || c == '\r' || c == ' ' || c == '#' || c == '/' ||
    c == ':' || c == '<' || c == '>' || c == '?' || c == '@' || c == '[' || c == '\\' ||
    c == ']' || c == '^' || c == '|'

/-- The host of a scheme with rules of its own: any text, percent-encoded. -/
def otherHost (text : List Char) : Except UriError String :=
  match text with
  | '[' :: _ => bracketed text
  | _ =>
    if text.any isForbiddenInHost then .error .invalidHostCharacter
    else .ok (Percent.encode Percent.isControl text)

end StoryScript.Uri
