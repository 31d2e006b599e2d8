import StoryScript.Script.Glyph

/-!
The names that an expression reads.
-/

namespace StoryScript.Script

/-- The words that are not names of symbols. -/
def keywords : List String :=
  ["true", "false", "not", "and", "or", "mod", "has", "hasnt", "temp", "return", "ref", "else",
    "function"]

/-- The reads of a dotted name: its first segment is searched for outwards, and each later one is
the member that the path up to it names. -/
def dottedReads (name : List Glyph) : List (Annotated Reference) :=
  match dottedTrail name with
  | [] => []
  | (first, head) :: later =>
    mark first (Reference.ofUse .read (".." ++ head)) ::
      later.map fun (segment, path) => mark segment (Reference.ofUse .read path)

def continuesNumber (glyph : Glyph) : Bool :=
  glyph.char.isAlphanum || glyph.char == '.'

/-- The names read by an expression. Numbers and keywords read nothing. -/
def reads : List Glyph → List (Annotated Reference)
  | [] => []
  | glyph :: rest =>
    if glyph.char.isDigit then reads (rest.drop (rest.takeWhile continuesNumber).length)
    else if startsName glyph.char then
      let name := glyph :: takeNameRest rest
      (if spell name ∈ keywords then [] else dottedReads name) ++
        reads (rest.drop (takeNameRest rest).length)
    else reads rest
termination_by line => line.length
decreasing_by all_goals (simp only [List.length_drop, List.length_cons]; omega)

/-- The value of an assignment. A single name is read as a variable or as a member of the type
that the assigned symbol has. -/
def assignedReads (assigned : String) (line : List Glyph) : List (Annotated Reference) :=
  let body := skipBlanks line
  let name := takeName body
  if name ≠ [] ∧ (name.all fun glyph => glyph.char ≠ '.') ∧
      skipBlanks (body.drop name.length) = [] ∧ spell name ∉ keywords then
    [mark name
      { symbolIds := [".." ++ spell name, "?." ++ spell name]
        usage := some .read
        selectors := [Selector.any (spell name)]
        assigned := some assigned }]
  else reads line

/-- What is read between braces: the condition before a colon, the whole of a plain expression,
and nothing of a list of alternatives. -/
def braceReads (inner : List Glyph) : List (Annotated Reference) :=
  let body := inner.dropWhile fun glyph =>
    glyph.char == '~' || glyph.char == '&' || glyph.char == '!'
  let condition := body.takeWhile fun glyph => glyph.char ≠ ':'
  if condition.length < body.length then reads condition
  else if body.any fun glyph => glyph.char == '|' then []
  else reads body

/-- What a line reads between braces. An opening brace is matched by the first closing one behind
it; where there is none the line has no more. -/
def inlineReads : List Glyph → List (Annotated Reference)
  | [] => []
  | glyph :: rest =>
    if glyph.char = '\x7b' then
      let inner := rest.takeWhile fun glyph => glyph.char ≠ '\x7d'
      if inner.length < rest.length then
        braceReads inner ++ inlineReads (rest.drop (inner.length + 1))
      else []
    else inlineReads rest
termination_by line => line.length
decreasing_by all_goals (simp only [List.length_drop, List.length_cons]; omega)

end StoryScript.Script
