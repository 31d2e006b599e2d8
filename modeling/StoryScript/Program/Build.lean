import StoryScript.Program.Source
import StoryScript.Resolution
import StoryScript.Scope

/-!
Building a program: all its scripts declare their symbols, the types of variables follow from what
is assigned to them, and every use is resolved. Faults are reported in the script they stand in.
-/

namespace StoryScript.Program

/-- The parts of an id before and after its last dot. -/
def splitLast? (id : String) : Option (String × String) :=
  match (Path.segments id).reverse with
  | [] | [_] => none
  | last :: before => some (Path.ofSegments before.reverse, last)

def Script.site (script : Script) (span : Span) : Site :=
  ⟨script.uri.text, span⟩

/-- The faults of a script's includes. -/
def includeFaults (missing : List Inclusion) (script : Script) : List (Span × String) :=
  (missing.filter fun inclusion => inclusion.script.uri = script.uri).map fun inclusion =>
    (inclusion.span, "Included file '" ++ inclusion.path ++ "' not found")

/-- A declaration: its script, where it stands, what it declares, and under which id. -/
structure Declared where
  script : Script
  span : Span
  kind : SymbolKind
  id : String

/-- The declaration that an annotation makes, if it makes one. -/
def Declared.of? (script : Script) (item : Annotated Reference) : Option Declared :=
  match item.value.declaration, item.value.symbolIds with
  | some kind, id :: _ => some ⟨script, item.span, kind, id⟩
  | _, _ => none

/-- All declarations, in the order in which the scripts were loaded. -/
def declarations (scripts : List Script) : List Declared :=
  scripts.flatMap fun script => script.annotations.references.items.filterMap (Declared.of? script)

/-- Adds a declaration. One that comes first makes its symbol known, and a list's member a member
of its list. -/
def declareOne (context : Context) (declared : Declared) : Context :=
  if context.declares declared.id then context
  else
    let symbol := { kind := declared.kind, site := some (declared.script.site declared.span) }
    let context := context.declare declared.id symbol
    match declared.kind, splitLast? declared.id with
    | .define, some (type, member) => context.addMember type member
    | _, _ => context

/-- The symbols of a list of declarations. -/
def declareAll (declared : List Declared) : Context :=
  declared.foldl declareOne Context.empty

/-- The declarations whose id was declared before, each with the kind that its symbol has. -/
def duplicates : Context → List Declared → List (Declared × SymbolKind)
  | _, [] => []
  | context, declared :: rest =>
    match context.symbols.get? declared.id with
    | some symbol => (declared, symbol.kind) :: duplicates context rest
    | none => duplicates (declareOne context declared) rest

/-- The faults of a script's declarations. -/
def duplicateFaults (found : List (Declared × SymbolKind)) (script : Script) :
    List (Span × String) :=
  (found.filter fun (declared, _) => declared.script.uri = script.uri).map fun (declared, kind) =>
    (declared.span,
      "Duplicate declaration of '" ++ declared.id ++ "' (already a " ++ kind.name ++ ")")

/-- The type that an assignment shows its variable to have, if the value is a member of one. -/
def inferred? (context : Context) (reference : Reference) : Option (String × String) :=
  match reference.assigned, reference.selectors.findSome? (context.expected? · none) with
  | some assigned, some id => (splitLast? id).map fun (type, _) => (assigned, type)
  | _, _ => none

/-- Gives a symbol a type, unless it has one. -/
def setType (context : Context) (id type : String) : Context :=
  match context.symbols.get? id with
  | some symbol =>
    if symbol.typeName.isSome then context
    else
      let symbol := { symbol with typeName := some type }
      { context with symbols := context.symbols.insert id symbol }
  | none => context

/-- Gives symbols the types that are assigned to them, each one the first. -/
def inferTypes (context : Context) (scripts : List Script) : Context :=
  let references := scripts.flatMap fun script => script.annotations.references.items
  let found := references.filterMap fun item => inferred? context item.value
  found.foldl (fun context (id, type) => setType context id type) context

/-- A use in the scope it stands in: where it is, and the known ids that it resolves to. -/
structure Use where
  span : Span
  reference : Reference
  ids : List String

/-- The uses of a script, in order, each resolved in its scope. -/
def usesFrom (context : Context) (builtins : Keys String) (text : List Char) :
    Scope → List (Annotated Reference) → List Use
  | _, [] => []
  | scope, item :: rest =>
    if item.value.isDeclaration then usesFrom context builtins text (scope.visit text item) rest
    else
      let ids := context.resolveReference builtins item.value false scope.path
      ⟨item.span, item.value, ids.filter (context.knows builtins)⟩ ::
        usesFrom context builtins text scope rest

def uses (context : Context) (builtins : Keys String) (script : Script) : List Use :=
  usesFrom context builtins script.text.toList Scope.top script.annotations.references.items

/-- The faults of a script's diverts: those that lead to nothing known. -/
def divertFaults (context : Context) (builtins : Keys String) (script : Script) :
    List (Span × String) :=
  let lost := (uses context builtins script).filter fun use =>
    use.ids.isEmpty && use.reference.isDivert
  lost.map fun use =>
    let target := use.reference.symbolIds.head?.getD ""
    (use.span, "Divert target '" ++ target ++ "' not found")

/-- The declared ids used by a script, each with the place of its use. -/
def usedSites (context : Context) (builtins : Keys String) (script : Script) :
    List (String × Site) :=
  (uses context builtins script).flatMap fun use =>
    (use.ids.filter context.declares).map fun id => (id, script.site use.span)

/-- The diagnostics of faults that stand in a script. -/
def Script.report (script : Script) (faults : List (Span × String)) : List Diagnostic :=
  let lines := Text.lines script.text.toList
  faults.map fun (span, message) => Diagnostic.fault lines span message

/-- The program of a list of loaded scripts. -/
def ofScripts (builtins : Keys String) (root : Uri) (collected : Collected) : Program :=
  let scripts := collected.scripts
  let declared := declarations scripts
  let found := duplicates Context.empty declared
  let context := inferTypes (declareAll declared) scripts
  let sites := scripts.flatMap (usedSites context builtins)
  { root := some root
    scripts := Table.ofList (scripts.map fun script => (script.uri, script.version))
    diagnostics := Table.ofList (scripts.map fun script =>
      (script.uri, script.report (includeFaults collected.missing script ++
        duplicateFaults found script ++ divertFaults context builtins script)))
    context := sites.foldl (fun context (id, site) => context.addUse id site) context }

/-- The program that starts from a root; none if the root cannot be loaded. -/
def build? (annotate : Annotator) (builtins : Keys String) (load : Loader) (root : Uri) :
    Option Program :=
  (collectFrom? load annotate root).map (ofScripts builtins root)

/-- The scripts of a program in the order in which they are loaded, each with how many have been
loaded by then. -/
def progress (annotate : Annotator) (load : Loader) (root : Uri) : List (Uri × Nat) :=
  match collectFrom? load annotate root with
  | none => []
  | some collected => collected.scripts.zipIdx.map fun (script, index) => (script.uri, index + 1)

end StoryScript.Program
