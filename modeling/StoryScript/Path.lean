import StoryScript.Text.Bytes

/-!
Dotted paths. Symbols are named by paths such as `Forest.Clearing.look`; a divert names its target
by a path that may be relative to the scope it stands in.
-/

namespace StoryScript.Path

/-- The segments of a path, empty ones included. -/
def segments (path : String) : List String :=
  Text.split '.' path

/-- The segments of a path that are not empty. -/
def names (path : String) : List String :=
  (segments path).filter (· ≠ "")

/-- The path with the given segments. -/
def ofSegments (segments : List String) : String :=
  Text.join "." segments

/-- A name within a scope. -/
def within (scope name : String) : String :=
  if scope = "" then name else scope ++ "." ++ name

/-- The segment that leads to the enclosing section. -/
def parent : String := "^"

def isNumeric (segment : String) : Bool :=
  segment.toList.all Char.isDigit

/-- Goes up one section. Where there is none, the step itself is kept. -/
def ascend (resolved : List String) : List String :=
  match resolved.getLast? with
  | none => resolved ++ [parent]
  | some last => if last = parent then resolved ++ [parent] else resolved.dropLast

/-- Follows one segment of a divert. Empty and numeric segments lead nowhere. -/
def follow? (resolved : List String) (segment : String) : Option (List String) :=
  if segment = parent then some (ascend resolved)
  else if isNumeric segment then none
  else some (resolved ++ [segment])

/-- Where a divert's first segment leads: an empty one to the scope, a step up to what encloses
the scope, and a name to the top section of that name. -/
def start? (scope : List String) (segment : String) : Option (List String) :=
  if segment = "" then some scope
  else if segment = parent then some (ascend scope)
  else follow? [] segment

/-- The path that a divert names, from a scope. A single dot names the scope itself. -/
def ofDivert? (divert scope : String) : Option String :=
  if divert = "." then some (ofSegments (names scope))
  else if divert = "" then none
  else
    match segments divert with
    | [] => none
    | first :: later =>
      ((start? (names scope) first).bind fun resolved =>
        later.foldlM follow? resolved).map ofSegments

end StoryScript.Path
