import StoryScript.Path
import StoryScript.Reference
import StoryScript.Text.Position

/-!
The sections that enclose a place in a script. Knots stand at the top and stitches within a knot,
so a scope is at most one knot and one stitch.
-/

namespace StoryScript

/-- The knot and the stitch that a place lies in. -/
structure Scope where
  knot : Option String := none
  stitch : Option String := none
deriving DecidableEq, Inhabited

namespace Scope

/-- The scope at the start of a script. -/
def top : Scope := {}

/-- The scope after a declaration: a knot starts afresh, a stitch replaces the last one, and
anything else opens no section. -/
def enter (scope : Scope) (kind : SymbolKind) (name : String) : Scope :=
  match kind with
  | .knot => { knot := some name, stitch := none }
  | .stitch => { scope with stitch := some name }
  | _ => scope

/-- The names of the enclosing sections, outermost first. -/
def sections (scope : Scope) : List String :=
  scope.knot.toList ++ scope.stitch.toList

def path (scope : Scope) : String :=
  Path.ofSegments scope.sections

def depth (scope : Scope) : Nat :=
  scope.sections.length

/-- The scope after an annotation of a text. A section is named by the text it covers. -/
def visit (text : List Char) (scope : Scope) (item : Annotated Reference) : Scope :=
  match item.value.declaration with
  | some kind => if kind.opensSection then scope.enter kind (item.span.textIn text) else scope
  | none => scope

/-- The scope at an offset, made by the declarations that start before it. -/
def atOffset (annotations : Annotations) (text : List Char) (offset : Nat) : Scope :=
  (annotations.references.items.takeWhile fun item => item.span.start < offset).foldl
    (visit text) top

end Scope

end StoryScript
