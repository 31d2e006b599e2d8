import StoryScript.Span
import StoryScript.Text.Blank
import StoryScript.Text.Bytes

/-!
Positions in a text as an editor counts them: a line, and a column in UTF-16 code units. Lines
end at LF, CR LF, CR, VT, FF, NEL, LS and PS. `Position.offset` and `Position.ofOffset` go
between positions and byte offsets, and `Change.apply` edits a text by them.
-/

namespace StoryScript

namespace Text

/-- The characters that end a line by themselves. -/
def isLineBreak (c : Char) : Bool :=
  c == '\n' || c == '\r' || c == '\x0b' || c == '\x0c' || c == '\u0085' ||
    c == '\u2028' || c == '\u2029'

/-- The lines of a text, each with its break. The last one has none and may be empty. -/
def lines : List Char → List (List Char)
  | [] => [[]]
  | '\r' :: '\n' :: rest => ['\r', '\n'] :: lines rest
  | c :: rest =>
    if isLineBreak c then [c] :: lines rest
    else
      match lines rest with
      | [] => [[c]]
      | line :: later => (c :: line) :: later

/-- The number of UTF-16 code units of a character. -/
def unitSize (c : Char) : Nat :=
  if c.toNat < 0x10000 then 1 else 2

/-- The number of UTF-16 code units of a text. -/
def unitLength (text : List Char) : Nat :=
  text.foldr (fun c length => unitSize c + length) 0

/-- The longest opening of a text whose size, in a given measure, is within a bound. -/
def takeWithin (size : Char → Nat) : List Char → Nat → List Char
  | [], _ => []
  | c :: rest, bound =>
    if size c ≤ bound then c :: takeWithin size rest (bound - size c) else []

/-- The characters that end at or before a byte offset. -/
def before (text : List Char) (offset : Nat) : List Char :=
  takeWithin Char.utf8Size text offset

/-- The characters that end after a byte offset. -/
def after (text : List Char) (offset : Nat) : List Char :=
  text.drop (before text offset).length

end Text

/-- A line and a column of UTF-16 code units, both counted from zero. -/
structure Position where
  line : Nat
  character : Nat
deriving DecidableEq, Inhabited

/-- The text between two positions. -/
structure Range where
  start : Position
  stop : Position
deriving DecidableEq, Inhabited

namespace Position

open Text

/-- A line without the carriage returns and line feeds at its end. -/
def lineContent (line : List Char) : List Char :=
  trimEndWhile (fun c => c == '\n' || c == '\r') line

/-- The byte offset of a position. A column past the end of its line counts as the end, a column
inside a character as the character's start, and a line past the last one as the end of the
text. -/
def offset (text : List Char) (position : Position) : Nat :=
  match (lines text)[position.line]? with
  | none => byteLength text
  | some line =>
    byteLength ((lines text).take position.line).flatten +
      byteLength (takeWithin unitSize (lineContent line) position.character)

/-- The position of a byte offset in a list of lines. -/
def ofOffsetIn : List (List Char) → Nat → Position
  | [], _ => ⟨0, 0⟩
  | [last], offset => ⟨0, unitLength (before last offset)⟩
  | line :: next :: later, offset =>
    if offset < byteLength line then ⟨0, unitLength (before line offset)⟩
    else
      let rest := ofOffsetIn (next :: later) (offset - byteLength line)
      ⟨rest.line + 1, rest.character⟩

/-- The position of a byte offset. An offset inside a character counts as its start, and one past
the end as the end. -/
def ofOffset (text : List Char) (offset : Nat) : Position :=
  ofOffsetIn (lines text) offset

/-- A position in words of 32 bits, as positions are written down. It is the same in every text of less
than 2 ^ 32 units (`Position.wrapped_ofOffset`), so only what has to fit for any text is wrapped. -/
def wrapped (position : Position) : Position :=
  ⟨position.line % UInt32.size, position.character % UInt32.size⟩

end Position

/-- The positions of the two ends of a span in a list of lines. -/
def Range.ofSpanIn (lines : List (List Char)) (span : Span) : Range :=
  ⟨Position.ofOffsetIn lines span.start, Position.ofOffsetIn lines span.stop⟩

/-- The positions of the two ends of a span. -/
def Range.ofSpan (text : List Char) (span : Span) : Range :=
  Range.ofSpanIn (Text.lines text) span

def Range.wrapped (range : Range) : Range :=
  ⟨range.start.wrapped, range.stop.wrapped⟩

/-- The text that a span covers, empty if its ends are not in order on character boundaries. -/
def Span.textIn (span : Span) (text : List Char) : String :=
  match Text.slice? text span.start span.stop with
  | some covered => String.ofList covered
  | none => ""

/-- An edit of a text: new text for a range, or for the whole. -/
structure Change where
  range : Option Range
  /-- The length of the replaced text as the editor states it; nothing depends on it. -/
  rangeLength : Option Nat
  text : String
deriving DecidableEq, Inhabited

namespace Change

/-- The text with the bytes between two offsets replaced. -/
def replace (text : List Char) (start stop : Nat) (new : List Char) : List Char :=
  Text.before text start ++ new ++ Text.after text stop

/-- The text after the edit. The ends of a range may come in either order. -/
def apply (text : List Char) (change : Change) : List Char :=
  match change.range with
  | none => change.text.toList
  | some range =>
    let start := range.start.offset text
    let stop := range.stop.offset text
    replace text (min start stop) (max start stop) change.text.toList

/-- The text after several edits, each one made in the result of those before it. -/
def applyAll (text : List Char) (changes : List Change) : List Char :=
  changes.foldl apply text

end Change

end StoryScript
