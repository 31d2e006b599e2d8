import StoryScript.Json.Decode
import StoryScript.Reference

/-!
Annotations as JSON.
-/

namespace StoryScript

open Json.Decoder

open Json (Decoder Fault Record)

def Selector.toJson (selector : Selector) : Json :=
  .object [("types", Json.ofStrings selector.types), ("name", .string selector.name)]

def Selector.ofJson : Decoder Selector := fun json => do
  let record ← Record.ofJson "a selector" ["types", "name"] json
  pure ⟨← record.defaulted "types" [] (list text),
    ← record.required "name" text⟩

namespace Reference

def toJson (reference : Reference) : Json :=
  Json.ofOptions
    [("declaration", reference.declaration.map fun kind => .string kind.name),
      ("symbolIds", some (Json.ofStrings reference.symbolIds)),
      ("interdependentIds", some (Json.ofStrings reference.interdependentIds)),
      ("usage", reference.usage.map fun usage => .string usage.name),
      ("selectors", some (Json.ofList Selector.toJson reference.selectors)),
      ("assigned", reference.assigned.map .string)]

def ofJson : Decoder Reference := fun json => do
  let record ← Record.ofJson "a reference"
    ["declaration", "symbolIds", "interdependentIds", "usage", "selectors", "assigned"] json
  pure
    { declaration := ← record.optional "declaration" (variant SymbolKind.all SymbolKind.name)
      symbolIds := ← record.defaulted "symbolIds" [] (list text)
      interdependentIds := ← record.defaulted "interdependentIds" [] (list text)
      usage := ← record.optional "usage" (variant Usage.all Usage.name)
      selectors := ← record.defaulted "selectors" [] (list Selector.ofJson)
      assigned := ← record.optional "assigned" text }

end Reference

def Include.toJson (target : Include) : Json :=
  .object [("path", .string target.path)]

def Include.ofJson : Decoder Include := fun json => do
  let record ← Record.ofJson "an include" ["path"] json
  pure ⟨← record.required "path" text⟩

namespace Annotated

variable {α : Type}

def toJson (encode : α → Json) (item : Annotated α) : Json :=
  .object
    [("from", .ofNat item.span.start), ("to", .ofNat item.span.stop),
      ("value", encode item.value)]

def ofJson (decode : Decoder α) : Decoder (Annotated α) := fun json => do
  let record ← Record.ofJson "an annotation" ["from", "to", "value"] json
  pure ⟨⟨← record.required "from" count, ← record.required "to" count⟩,
    ← record.required "value" decode⟩

end Annotated

namespace RangeSet

variable {α : Type}

def toJson (encode : α → Json) (set : RangeSet α) : Json :=
  .object [("items", Json.ofList (Annotated.toJson encode) set.items)]

def ofJson (decode : Decoder α) : Decoder (RangeSet α) := fun json => do
  let record ← Record.ofJson "a range set" ["items"] json
  pure ⟨← record.required "items" (list (Annotated.ofJson decode))⟩

end RangeSet

namespace Annotations

def toJson (annotations : Annotations) : Json :=
  .object
    [("references", annotations.references.toJson Reference.toJson),
      ("includes", annotations.includes.toJson Include.toJson)]

def ofJson : Decoder Annotations := fun json => do
  let record ← Record.ofJson "annotations" ["references", "includes"] json
  pure ⟨← record.required "references" (RangeSet.ofJson Reference.ofJson),
    ← record.required "includes" (RangeSet.ofJson Include.ofJson)⟩

end Annotations

end StoryScript
