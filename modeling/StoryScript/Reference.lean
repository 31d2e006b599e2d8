import StoryScript.RangeSet

/-!
What a script's annotations say: a `Reference` names a symbol, by declaring or by using it, and
an `Include` names another script.
-/

namespace StoryScript

/-- What a declaration introduces. -/
inductive SymbolKind where
  /-- A top section, `== name`. -/
  | knot
  /-- A section within a knot, `= name`. -/
  | stitch
  /-- The name of a choice or a gather, `- (name)`. -/
  | label
  | const
  | var
  | list
  /-- A member of a list. -/
  | define
  /-- A variable of the enclosing section. -/
  | temp
  /-- A parameter of a knot or stitch. -/
  | param
deriving DecidableEq, Inhabited, Repr

namespace SymbolKind

def all : List SymbolKind :=
  [knot, stitch, label, const, var, list, define, temp, param]

def name : SymbolKind → String
  | knot => "knot"
  | stitch => "stitch"
  | label => "label"
  | const => "const"
  | var => "var"
  | list => "list"
  | define => "define"
  | temp => "temp"
  | param => "param"

/-- Whether the declaration opens a section that later names belong to. -/
def opensSection : SymbolKind → Bool
  | knot | stitch => true
  | _ => false

end SymbolKind

/-- How a reference that declares nothing uses its symbol. -/
inductive Usage where
  | divert
  | read
  | write
deriving DecidableEq, Inhabited, Repr

namespace Usage

def all : List Usage := [divert, read, write]

def name : Usage → String
  | divert => "divert"
  | read => "read"
  | write => "write"

end Usage

/-- A member looked up by name in the types that may own it, most likely first; in any type if
none is listed. -/
structure Selector where
  types : List String
  name : String
deriving DecidableEq, Inhabited

def Selector.any (name : String) : Selector := ⟨[], name⟩

/-- An occurrence of a symbol in a script. -/
structure Reference where
  /-- What it declares, if it declares anything. -/
  declaration : Option SymbolKind := none
  /-- The ids that the symbol may have, in the forms of `IdForm`. -/
  symbolIds : List String := []
  /-- Further ids, renamed together with the symbol. -/
  interdependentIds : List String := []
  usage : Option Usage := none
  /-- Where ids of inferred type are looked up. -/
  selectors : List Selector := []
  /-- The symbol that the value is assigned to, whose type is the expected one. -/
  assigned : Option String := none
deriving DecidableEq, Inhabited

namespace Reference

def ofDeclaration (kind : SymbolKind) (id : String) : Reference :=
  { declaration := some kind, symbolIds := [id] }

def ofUse (usage : Usage) (id : String) : Reference :=
  { usage := some usage, symbolIds := [id] }

def isDeclaration (reference : Reference) : Bool :=
  reference.declaration.isSome

def isDivert (reference : Reference) : Bool :=
  reference.usage == some Usage.divert

end Reference

/-- Another script, by its path as written. -/
structure Include where
  path : String
deriving DecidableEq, Inhabited

/-- All annotations of a script. -/
structure Annotations where
  references : RangeSet Reference
  includes : RangeSet Include
deriving DecidableEq, Inhabited

namespace Annotations

def empty : Annotations := ⟨RangeSet.empty, RangeSet.empty⟩

def ofLists (references : List (Annotated Reference)) (includes : List (Annotated Include)) :
    Annotations :=
  ⟨RangeSet.ofList references, RangeSet.ofList includes⟩

end Annotations

end StoryScript
