import StoryScript.Context
import StoryScript.Json.Decode

/-!
The symbols of a program as JSON.
-/

namespace StoryScript

open Json.Decoder

open Json (Decoder Fault Record)

/-- A table as an object. -/
def Table.toJson {κ β : Type} [Named κ] (encode : β → Json) (table : Table κ β) : Json :=
  .object (table.entries.map fun entry => (Named.name entry.1, encode entry.2))

/-- A set of keys as an array. -/
def Keys.toJson {κ : Type} [Named κ] (set : Keys κ) : Json :=
  Json.ofList (fun key => .string (Named.name key)) (Table.keys set)

namespace Site

def toJson (site : Site) : Json :=
  .object
    [("uri", .string site.uri), ("from", .ofNat site.span.start), ("to", .ofNat site.span.stop)]

def ofJson : Decoder Site := fun json => do
  let record ← Record.ofJson "a site" ["uri", "from", "to"] json
  pure ⟨← record.required "uri" text,
    ⟨← record.required "from" count, ← record.required "to" count⟩⟩

end Site

namespace Symbol

def toJson (symbol : Symbol) : Json :=
  Json.ofOptions
    [("kind", some (.string symbol.kind.name)), ("location", symbol.site.map Site.toJson),
      ("typeName", symbol.typeName.map .string)]

def ofJson : Decoder Symbol := fun json => do
  let record ← Record.ofJson "a symbol" ["kind", "location", "typeName"] json
  pure ⟨← record.required "kind" (variant SymbolKind.all SymbolKind.name),
    ← record.optional "location" Site.ofJson, ← record.optional "typeName" text⟩

end Symbol

namespace Context

def toJson (context : Context) : Json :=
  .object
    [("symbols", context.symbols.toJson Symbol.toJson),
      ("types", context.types.toJson Keys.toJson),
      ("members", context.members.toJson Keys.toJson),
      ("references", context.uses.toJson (Json.ofList Site.toJson))]

def ofJson : Decoder Context := fun json => do
  let record ← Record.ofJson "a context"
    ["symbols", "types", "members", "references"] json
  let sets := table text (keys text)
  pure
    { symbols := ← record.defaulted "symbols" Table.empty
        (table text Symbol.ofJson)
      types := ← record.defaulted "types" Table.empty sets
      members := ← record.defaulted "members" Table.empty sets
      uses := ← record.defaulted "references" Table.empty
        (table text (list Site.ofJson)) }

/-- The built-in ids among the options of a lookup. -/
def builtinsOfJson : Decoder (Keys String) := fun json => do
  let record ← Record.ofJson "lookup options" ["builtin_ids"] json
  record.defaulted "builtin_ids" Table.empty (keys text)

def builtinsToJson (builtins : Keys String) : Json :=
  .object [("builtin_ids", Keys.toJson builtins)]

end Context

end StoryScript
