import StoryScript.Asset
import StoryScript.Script.Glyph

/-!
Strings, diverts and asset tags may stand anywhere in a line. They are taken out before the rest is
read: what they cover is left blank.
-/

namespace StoryScript.Script

/-- The references taken out of a line, and the line without them. -/
structure Masked where
  found : List (Annotated Reference)
  line : List Glyph

/-- Blanks the strings of a line, quotes included; a string that is not closed reaches to the end
of the line. -/
def maskStrings (inside : Bool) : List Glyph → List Glyph
  | [] => []
  | glyph :: rest =>
    if glyph.char = '"' then glyph.blank :: maskStrings (!inside) rest
    else (if inside then glyph.blank else glyph) :: maskStrings inside rest

/-- The targets that every story has; they are nowhere declared. -/
def reservedTargets : List String := ["DONE", "END"]

/-- The references of a divert's path, one for each section that it names. -/
def targetReferences (path : List Glyph) : List (Annotated Reference) :=
  if spell path ∈ reservedTargets then []
  else
    ((dottedTrail path).filter fun (segment, _) => segment ≠ [] ∧ spell segment ≠ Path.parent).map
      fun (segment, upTo) => mark segment (Reference.ofUse .divert upTo)

def isPathChar (glyph : Glyph) : Bool :=
  glyph.char.isAlphanum || glyph.char == '_' || glyph.char == '.' || glyph.char == '^'

/-- Whether two characters are an arrow, `->` or `<-`. -/
def isArrow (first second : Glyph) : Bool :=
  (first.char == '-' && second.char == '>') || (first.char == '<' && second.char == '-')

/-- How many glyphs a second `->` takes, directly behind an arrow. -/
def secondArrowLength : List Glyph → Nat
  | first :: second :: _ => if first.char == '-' && second.char == '>' then 2 else 0
  | _ => 0

/-- Takes the diverts out of a line: an arrow, and the path behind it if there is one. -/
def maskDiverts : List Glyph → Masked
  | [] => ⟨[], []⟩
  | [only] => ⟨[], [only]⟩
  | first :: second :: rest =>
    if isArrow first second then
      let arrow := rest.take (secondArrowLength rest)
      let blanks := (rest.drop arrow.length).takeWhile Glyph.isBlank
      let path := (rest.drop (arrow.length + blanks.length)).takeWhile isPathChar
      let tail := maskDiverts (rest.drop (arrow.length + blanks.length + path.length))
      ⟨targetReferences path ++ tail.found,
        (first :: second :: arrow).map Glyph.blank ++ blanks ++ path.map Glyph.blank ++ tail.line⟩
    else
      let tail := maskDiverts (second :: rest)
      ⟨tail.found, first :: tail.line⟩
termination_by line => line.length
decreasing_by all_goals (simp only [List.length_drop, List.length_cons]; omega)

def isTagChar (glyph : Glyph) : Bool :=
  glyph.char.isAlphanum || glyph.char == '_' || glyph.char == '-'

/-- The kind and the name of the asset tag that follows a number sign, and how many glyphs it
takes. The name may be missing. -/
def assetTag? (line : List Glyph) : Option (AssetKind × List Glyph × Nat) :=
  AssetKind.all.findSome? fun kind =>
    match dropWord? kind.name (skipBlanks line) with
    | some (⟨_, ':'⟩ :: rest) =>
      let name := (skipBlanks rest).takeWhile isTagChar
      some (kind, name, line.length - (skipBlanks rest).length + name.length)
    | _ => none

/-- Takes the asset tags, such as `# image: forest`, out of a line. -/
def maskTags : List Glyph → Masked
  | [] => ⟨[], []⟩
  | glyph :: rest =>
    match if glyph.char = '#' then assetTag? rest else none with
    | some (kind, name, length) =>
      let tail := maskTags (rest.drop length)
      let found := if name = [] then []
        else [mark name (Reference.ofUse .read (kind.name ++ "." ++ spell name))]
      ⟨found ++ tail.found, (glyph :: rest.take length).map Glyph.blank ++ tail.line⟩
    | none =>
      let tail := maskTags rest
      ⟨tail.found, glyph :: tail.line⟩
termination_by line => line.length
decreasing_by all_goals (simp only [List.length_drop, List.length_cons]; omega)

end StoryScript.Script
