import StoryScript.Reference
import StoryScript.Text.Bytes

/-!
The characters of a script with the places where they stand, and the words that its lines are made
of. Names, blanks and words are ASCII; every other character is prose.
-/

namespace StoryScript.Script

/-- A character and its byte offset. -/
structure Glyph where
  offset : Nat
  char : Char
deriving DecidableEq, Inhabited

namespace Glyph

/-- The offset right behind the character. -/
def stop (glyph : Glyph) : Nat :=
  glyph.offset + glyph.char.utf8Size

/-- A space in the place of the character. -/
def blank (glyph : Glyph) : Glyph :=
  { glyph with char := ' ' }

def isBlank (glyph : Glyph) : Bool :=
  glyph.char == ' ' || glyph.char == '\t'

end Glyph

/-- The glyphs of a text that starts at a byte offset. -/
def glyphs : Nat → List Char → List Glyph
  | _, [] => []
  | offset, c :: rest => ⟨offset, c⟩ :: glyphs (offset + c.utf8Size) rest

/-- The text of a run of glyphs. -/
def spell (run : List Glyph) : String :=
  String.ofList (run.map Glyph.char)

/-- The bytes that a run of glyphs covers. -/
def spanOf (run : List Glyph) : Span :=
  match run.head?, run.getLast? with
  | some first, some last => ⟨first.offset, last.stop⟩
  | _, _ => ⟨0, 0⟩

/-- A value attached to a run of glyphs. -/
def mark {α : Type} (run : List Glyph) (value : α) : Annotated α :=
  ⟨spanOf run, value⟩

def skipBlanks (line : List Glyph) : List Glyph :=
  line.dropWhile Glyph.isBlank

def startsName (c : Char) : Bool :=
  c.isAlpha || c == '_'

def continuesName (c : Char) : Bool :=
  c.isAlphanum || c == '_'

/-- The rest of a dotted name. A dot belongs to it if another name starts behind the dot. -/
def takeNameRest : List Glyph → List Glyph
  | [] => []
  | glyph :: rest =>
    if continuesName glyph.char then glyph :: takeNameRest rest
    else if glyph.char == '.' && rest.head?.any fun next => startsName next.char then
      glyph :: takeNameRest rest
    else []

/-- The dotted name at the front of a line, empty if there is none. -/
def takeName (line : List Glyph) : List Glyph :=
  if line.head?.any fun first => startsName first.char then takeNameRest line else []

/-- What follows a given text at the front of a line. -/
def dropText? : List Char → List Glyph → Option (List Glyph)
  | [], line => some line
  | _ :: _, [] => none
  | c :: text, glyph :: line => if glyph.char = c then dropText? text line else none

/-- What follows a given word at the front of a line, if the word ends there. -/
def dropWord? (word : String) (line : List Glyph) : Option (List Glyph) :=
  (dropText? word.toList line).filter fun rest =>
    !rest.head?.any fun next => continuesName next.char

/-- The segments of a dotted name, each with the path that ends with it. -/
def trail (opening : String) : List (List Glyph) → List (List Glyph × String)
  | [] => []
  | segment :: rest =>
    let path := opening ++ spell segment
    (segment, path) :: trail (path ++ ".") rest

/-- The segments of a dotted name, each with the path that ends with it. -/
def dottedTrail (name : List Glyph) : List (List Glyph × String) :=
  trail "" (name.splitOnP fun glyph => glyph.char == '.')

end StoryScript.Script
