import StoryScript.Context

/-!
From the ids that a reference carries to the ids of symbols. An id comes in one of four forms
(`IdForm`), and diverts are resolved as paths from their scope.
-/

namespace StoryScript

/-- How an id is written. -/
inductive IdForm where
  /-- `?.name`: decided by the expected type. -/
  | inferred
  /-- `.name`: within the scope. -/
  | inScope (name : String)
  /-- `start..name`: searched outwards from a path, or from the scope if none is written. -/
  | searched (start name : String)
  /-- Any other text stands for itself. -/
  | literal
deriving DecidableEq

namespace IdForm

/-- The parts of a text before and after its first double dot. -/
def splitAtDots? : List Char → Option (List Char × List Char)
  | '.' :: '.' :: rest => some ([], rest)
  | c :: rest => (splitAtDots? rest).map fun parts => (c :: parts.1, parts.2)
  | [] => none

def ofId (id : String) : IdForm :=
  match id.toList with
  | '?' :: '.' :: _ => inferred
  | text =>
    match splitAtDots? text, text with
    | some ([], name), _ => searched "" (String.ofList name)
    | _, '.' :: name => inScope (String.ofList name)
    | some (start, name), _ => searched (String.ofList start) (String.ofList name)
    | none, _ => literal

end IdForm

namespace Context

/-- The symbol id that an id of a reference stands for. A search that finds nothing leaves the id
as written, unless it names nothing. -/
def resolveId? (context : Context) (builtins : Keys String) (reference : Reference)
    (scope id : String) : Option String :=
  match IdForm.ofId id with
  | .inferred => reference.selectors.findSome? (context.expected? · reference.assigned)
  | .inScope name => some (Path.within scope name)
  | .searched start name =>
    match context.lookup? builtins (if start = "" then scope else start) name with
    | some found => some found
    | none => if name = "" then none else some id
  | .literal => if id = "" then none else some id

/-- Whether a divert says itself where it starts, so that it is not searched for. -/
def isExplicit (divert : String) : Bool :=
  match divert.toList with
  | '.' :: _ | '^' :: _ => true
  | _ => false

/-- The symbol id that a divert leads to: the path it names if that is known, else what a search
outwards from the scope finds, else the path it names. -/
def resolveDivert? (context : Context) (builtins : Keys String) (scope divert : String) :
    Option String :=
  (Path.ofDivert? divert scope).map fun literal =>
    if context.knows builtins literal then literal
    else if isExplicit divert then literal
    else (context.lookup? builtins scope literal).getD literal

/-- Whether an id is a divert path, not an inferred or searched id. -/
def isDivertPath (id : String) : Bool :=
  match id.toList with
  | '?' :: '.' :: _ => false
  | text => (IdForm.splitAtDots? text).isNone

/-- Each item once, at its first place. -/
def distinct {α : Type} [DecidableEq α] (items : List α) : List α :=
  items.foldl (fun kept item => if item ∈ kept then kept else kept ++ [item]) []

/-- The symbol ids that a reference stands for, each once, those of its interdependent ids
included on demand. -/
def resolveReference (context : Context) (builtins : Keys String) (reference : Reference)
    (interdependent : Bool) (scope : String) : List String :=
  let ids := reference.symbolIds ++ if interdependent then reference.interdependentIds else []
  distinct (ids.filterMap fun id =>
    if reference.isDivert && isDivertPath id then context.resolveDivert? builtins scope id
    else context.resolveId? builtins reference scope id)

end Context

end StoryScript
