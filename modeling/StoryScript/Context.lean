import StoryScript.Path
import StoryScript.Reference
import StoryScript.Table

/-!
The symbols of a program: what is declared where, which types own which members, and where each
symbol is used. Names are found by searching outwards through the enclosing sections
(`Context.lookup?`) or by the type that is expected (`Context.expected?`).
-/

namespace StoryScript

/-- A place in a script. -/
structure Site where
  uri : String
  span : Span
deriving DecidableEq, Inhabited

/-- A declared symbol. -/
structure Symbol where
  kind : SymbolKind
  /-- Where it is declared, if in a script. -/
  site : Option Site := none
  /-- The list type of its value, if known. -/
  typeName : Option String := none
deriving DecidableEq, Inhabited

structure Context where
  /-- The declaration of each id. -/
  symbols : Table String Symbol := Table.empty
  /-- The members of each type. -/
  types : Table String (Keys String) := Table.empty
  /-- The types that own each member name. -/
  members : Table String (Keys String) := Table.empty
  /-- The uses of each id. -/
  uses : Table String (List Site) := Table.empty
deriving DecidableEq, Inhabited

namespace Context

def empty : Context := {}

/-- Declares a symbol. The first declaration of an id stays. -/
def declare (context : Context) (id : String) (symbol : Symbol) : Context :=
  match context.symbols.get? id with
  | some _ => context
  | none => { context with symbols := context.symbols.insert id symbol }

/-- Makes a member known as belonging to a type. -/
def addMember (context : Context) (type member : String) : Context :=
  { context with
    types := context.types.alter type fun old => (old.getD Table.empty).add member
    members := context.members.alter member fun old => (old.getD Table.empty).add type }

/-- Records a use of an id, after those already recorded. -/
def addUse (context : Context) (id : String) (site : Site) : Context :=
  { context with uses := context.uses.alter id fun old => old.getD [] ++ [site] }

def declares (context : Context) (id : String) : Bool :=
  context.symbols.contains id

/-- Whether an id is declared or built in. -/
def knows (context : Context) (builtins : Keys String) (id : String) : Bool :=
  context.declares id || builtins.contains id

/-- The ids that a name may have in a scope, innermost first: the name within the whole scope,
then with one enclosing section after another left out, at last the bare name. -/
def candidates (scope : List String) (name : String) : List String :=
  (List.range (scope.length + 1)).reverse.map fun depth =>
    Path.ofSegments (scope.take depth ++ [name])

/-- The innermost known id that a name has in a scope. -/
def lookup? (context : Context) (builtins : Keys String) (scope name : String) : Option String :=
  if name = "" then none
  else (candidates (Path.names scope) name).find? (context.knows builtins)

/-- Whether a type owns a member. -/
def owns (context : Context) (member type : String) : Bool :=
  (context.types.get? type).any fun members => members.contains member

/-- The id of the member that a selector means: in the first of its types that owns the member;
without types, in the type of the symbol that is assigned to, else in the first owner by name. -/
def expected? (context : Context) (selector : Selector) (assigned : Option String) :
    Option String :=
  let owner :=
    if selector.types ≠ [] then selector.types.find? (context.owns selector.name)
    else
      let hint := (assigned.bind context.symbols.get?).bind Symbol.typeName
      match hint.filter (context.owns selector.name) with
      | some type => some type
      | none => (context.members.get? selector.name).bind fun owners => owners.keys.head?
  owner.map fun type => type ++ "." ++ selector.name

/-- The symbols declared in a script, in the order of their ids. -/
def symbolsIn (context : Context) (uri : String) : List (String × Symbol) :=
  context.symbols.entries.filter fun entry => entry.2.site.any fun site => site.uri = uri

end Context

end StoryScript
