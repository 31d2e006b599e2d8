import StoryScript.Script.Line

/-!
Reading a whole script, line by line. `Script.annotate` gives its annotations in span order.
-/

namespace StoryScript.Script

/-- What the lines of a script hold, from an offset and a scope on, in the order of the lines. -/
def scanLines (scope : Scope) (offset : Nat) :
    List (List Char) → List (Annotated Reference) × List (Annotated Include)
  | [] => ([], [])
  | line :: later =>
    let scan := scanLine scope (glyphs offset (Text.trimEndWhile (· == '\r') line))
    let rest := scanLines scan.scope (offset + Text.byteLength line + 1) later
    (scan.references ++ rest.1, scan.includes ++ rest.2)

/-- The annotations of a script. Lines end at line feeds only, and a carriage return before one
belongs to the break. -/
def annotate (text : String) : Annotations :=
  let (references, includes) := scanLines Scope.top 0 (text.toList.splitOn '\n')
  Annotations.ofLists references includes

end StoryScript.Script
