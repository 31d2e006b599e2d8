import StoryScript.Json.Reader
import StoryScript.Message
import StoryScript.Text.Bytes

/-!
Messages as lines of text, which is how a compiler in a process of its own exchanges them.
-/

namespace StoryScript.Message

/-- The message that a line stands for. Blank lines and lines that are no message stand for
none. -/
def ofLine? (line : String) : Option Message :=
  (Json.read? line).bind ofJson?

/-- The messages that a text's lines stand for. -/
def ofLines (text : String) : List Message :=
  (Text.split '\n' text).filterMap ofLine?

/-- A message's line. -/
def toLine (message : Message) : String :=
  message.toJson.write ++ "\n"

end StoryScript.Message
