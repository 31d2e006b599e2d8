import StoryScript.Json.Writer

/-!
How an editor and its server exchange messages over a stream of bytes: each message is preceded by
a header that tells its length.
-/

namespace StoryScript.Frame

/-- A message with its header. -/
def encode (json : Json) : String :=
  let text := json.write
  "Content-Length: " ++ Nat.repr text.utf8ByteSize ++ "\r\n\r\n" ++ text

/-- The length that a header's line tells, if it does. -/
def lengthIn? (line : String) : Option Nat :=
  match (line.toList.takeWhile (· ≠ ':'), line.toList.dropWhile (· ≠ ':')) with
  | (name, _ :: value) =>
    if String.ofList (name.map Char.toLower) = "content-length" then
      (String.ofList (value.filter fun c => !c.isWhitespace)).toNat?
    else none
  | _ => none

end StoryScript.Frame
