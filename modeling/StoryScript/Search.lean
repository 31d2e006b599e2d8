import StoryScript.Program.Build
import StoryScript.Store
import StoryScript.Workspace

/-!
Finding all occurrences of the symbol at a position. An occurrence is one that has the same text
and resolves, in its own scope, to one of the ids that the symbol resolves to.
-/

namespace StoryScript

/-- Which occurrences a search reports. -/
structure SearchFilter where
  declarations : Bool := true
  uses : Bool := true
  /-- Whether other open documents are searched. -/
  otherFiles : Bool := true
  /-- Whether interdependent ids count. -/
  interdependent : Bool := false
deriving DecidableEq, Inhabited

namespace SearchFilter

/-- Only declarations. -/
def definitions : SearchFilter := { uses := false }

/-- All that is renamed together. -/
def rename : SearchFilter := { interdependent := true }

def admits (filter : SearchFilter) (reference : Reference) : Bool :=
  if reference.isDeclaration then filter.declarations else filter.uses

end SearchFilter

/-- A range in a document. -/
structure Location where
  uri : Uri
  range : Range
deriving DecidableEq, Inhabited

/-- The symbol at a position. -/
structure SymbolAt where
  item : Annotated Reference
  /-- The text that names it. -/
  name : String
  /-- The path of the scope it stands in. -/
  scope : String
deriving DecidableEq, Inhabited

namespace Document

/-- The symbol at a position: the innermost annotation there, if it has an id and a text. -/
def symbolAt? (document : Document) (position : Position) : Option SymbolAt :=
  let text := document.text.toList
  match document.annotations.references.findAt (position.offset text) with
  | none => none
  | some item =>
    let name := item.span.textIn text
    if item.value.symbolIds = [] ∨ name = "" then none
    else some ⟨item, name, (Scope.atOffset document.annotations text item.span.start).path⟩

end Document

/-- What a search is for. -/
structure Query where
  context : Context
  builtins : Keys String
  filter : SearchFilter
  name : String
  targets : List String

namespace Query

def resolve (query : Query) (reference : Reference) (scope : String) : List String :=
  query.context.resolveReference query.builtins reference query.filter.interdependent scope

/-- Whether an annotation is an occurrence, in a scope of a text. -/
def matchesIn (query : Query) (text : List Char) (scope : Scope) (item : Annotated Reference) :
    Bool :=
  item.value.symbolIds ≠ [] && query.filter.admits item.value &&
    item.span.textIn text = query.name &&
    (query.resolve item.value scope.path).any (· ∈ query.targets)

/-- The spans of the occurrences among a text's annotations. -/
def spansFrom (query : Query) (text : List Char) : Scope → List (Annotated Reference) → List Span
  | _, [] => []
  | scope, item :: rest =>
    let later := query.spansFrom text (scope.visit text item) rest
    if query.matchesIn text scope item then item.span :: later else later

/-- The spans of a document's occurrences, at most one from each start. -/
def spansIn (query : Query) (document : Document) : List Span :=
  let found := query.spansFrom document.text.toList Scope.top document.annotations.references.items
  found.foldl (fun kept span =>
    if kept.any fun earlier => earlier.start = span.start then kept else kept ++ [span]) []

end Query

/-- An occurrence in a document. -/
structure Occurrence where
  uri : Uri
  document : Document
  span : Span

def Occurrence.location (occurrence : Occurrence) : Location :=
  ⟨occurrence.uri, Range.ofSpan occurrence.document.text.toList occurrence.span⟩

/-- The result of a search. -/
structure Search where
  occurrences : List Occurrence := []
  /-- The ids that the symbol resolves to. -/
  ids : Keys String := Table.empty
  /-- The files of the assets among the ids. -/
  assets : List Uri := []

namespace Search

/-- The locations of all occurrences, and behind them the start of each asset's file. -/
def locations (search : Search) : List Location :=
  search.occurrences.map Occurrence.location ++
    search.assets.map fun file => ⟨file, ⟨⟨0, 0⟩, ⟨0, 0⟩⟩⟩

def isEmpty (search : Search) : Bool :=
  search.locations.isEmpty

/-- Whether the symbol stands for an asset. -/
def hasAsset (search : Search) : Bool :=
  search.ids.keys.any fun id => (AssetKind.ofId? id).isSome

/-- The files of the assets among some ids, each once. A file whose own start is an occurrence is
left out. -/
def assetFiles (workspace : Workspace) (occurrences : List Occurrence) (ids : List String) :
    List Uri :=
  (Context.distinct (ids.flatMap workspace.findAssets)).filter fun file =>
    !occurrences.any fun occurrence => occurrence.uri = file && occurrence.span.start = 0

/-- All occurrences of the symbol at a position of a document. The symbols are those of a program,
or none. -/
def find (store : Store) (workspace : Workspace) (program : Option Program)
    (builtins : Keys String) (filter : SearchFilter) (uri : Uri) (position : Position) : Search :=
  match store.get? uri with
  | none => {}
  | some document =>
    match document.symbolAt? position with
    | none => {}
    | some symbol =>
      let context := (program.map Program.context).getD Context.empty
      let targets := context.resolveReference builtins symbol.item.value filter.interdependent
        symbol.scope
      if targets = [] then {}
      else
        let query : Query := ⟨context, builtins, filter, symbol.name, targets⟩
        let documents := if filter.otherFiles then store.documents.entries else [(uri, document)]
        let occurrences := documents.flatMap fun (uri, document) =>
          (query.spansIn document).map (⟨uri, document, ·⟩)
        let ids := Keys.ofList targets
        { occurrences, ids, assets := assetFiles workspace occurrences ids.keys }

end Search

end StoryScript
