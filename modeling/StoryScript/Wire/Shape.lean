import StoryScript.Wire.Position

/-!
Shapes of JSON values, and checking a value against one (`Shape.check`). What is wrong first in the
value's own order is what a check fails with: an object's fields come in the order of their names,
and only then is a field found to be missing.
-/

namespace StoryScript

open Json (Decoder Fault)

/-- Whether a field may be left out. -/
inductive Presence where
  | required
  /-- It may be left out of an object, but not of an array. -/
  | omittable
  /-- It may be left out, in an array together with all that follow. -/
  | defaulted
deriving DecidableEq

mutual

inductive Shape where
  | any
  | text
  | flag
  /-- An integer between two bounds, both included. -/
  | integer (low high : Int) (name : String)
  | float
  | uri
  /-- One of the given texts, alone or as the only key of an object whose value is null. -/
  | choice (names : List String)
  | nullable (shape : Shape)
  | list (item : Shape)
  /-- An array of two. -/
  | pair (item : Shape)
  /-- An object whose keys are not fixed. -/
  | table (expected : String) (key value : Shape)
  /-- An object with the given fields, or an array of them in order. -/
  | record (name : String) (fields : List Field)
  /-- An object that has, besides fields of its own, those of other structures. What is left is of
  the last shape. -/
  | composite (name : String) (fields : List Field) (parts : List (List Field)) (others : Shape)
  /-- One of several shapes. -/
  | oneOf (name : String) (forms : List Shape)
  /-- An object in which a field names the shape of the others. -/
  | tagged (tag : String) (forms : List Field)
  /-- A flag in place of a structure. -/
  | orFlag (shape : Shape)

inductive Field where
  | mk (name : String) (presence : Presence) (shape : Shape)

end

namespace Field

def name : Field → String
  | mk name _ _ => name

def presence : Field → Presence
  | mk _ presence _ => presence

/-- A field that has to be there. -/
def need (name : String) (shape : Shape) : Field := mk name .required shape

/-- A field that may be null or left out of an object. -/
def option (name : String) (shape : Shape) : Field := mk name .omittable (.nullable shape)

end Field

/-- How many elements an array has, in the words of a fault. -/
def elementCount (count : Nat) : String :=
  Nat.repr count ++ if count = 1 then " element" else " elements"

namespace Shape

/-- Whether a value is read in place, or from a copy that was made because more than one structure is
looked for in it. Of an array that is too long they say so in different words. -/
inductive Source where
  | value
  | copy
deriving DecidableEq

/-- An array with more elements than there are fields. -/
def tooLong (source : Source) (length count : Nat) : Fault :=
  .invalidLength length (match source with
    | .value => "fewer elements in array"
    | .copy => elementCount count ++ " in sequence")

/-- Fails with the first field that an object may not do without and does. -/
def requireAll (fields : List Field) (entries : List (String × Json)) : Except Fault Unit :=
  match fields.find? fun field =>
      field.presence = .required && !entries.any fun entry => entry.1 = field.name with
  | some field => .error (.missingField field.name)
  | none => .ok ()

mutual

def checkFrom (source : Source) : Shape → Json → Except Fault Unit
  | any, _ => .ok ()
  | text, json => discard (Decoder.text json)
  | flag, json => discard (Decoder.flag json)
  | integer low high name, json => discard (Decoder.integer low high name json)
  | float, .number _ => .ok ()
  | float, json => .error (.invalidType json "f32")
  | uri, json => discard (Uri.ofJson json)
  | choice names, json => discard (Decoder.variant names id json)
  | nullable shape, json => if json = .null then .ok () else shape.checkFrom source json
  | list item, .array items => items.forM fun json => item.checkFrom source json
  | list _, json => .error (.invalidType json "a sequence")
  | pair item, .array items =>
    if items.length = 2 then items.forM fun json => item.checkFrom source json
    else .error (.invalidLength items.length "an array of length 2")
  | pair _, json => .error (.invalidType json "an array of length 2")
  | table _ key value, .object entries => entries.forM fun (name, json) => do
    key.checkFrom source (.string name)
    value.checkFrom source json
  | table expected _ _, json => .error (.invalidType json expected)
  | record _ fields, .object entries => do
    entries.forM fun (name, json) => checkField source fields name json
    requireAll fields entries
  | record name fields, .array items =>
    checkItems source ("struct " ++ name ++ " with " ++ elementCount fields.length)
      (tooLong source items.length fields.length) 0 fields items
  | record name _, json => .error (.invalidType json ("struct " ++ name))
  | composite _ fields parts others, .object entries => do
    entries.forM fun (name, json) => checkField source fields name json
    requireAll fields entries
    checkParts parts entries
    let known := (fields ++ parts.flatten).map Field.name
    (entries.filter fun entry => entry.1 ∉ known).forM fun (_, json) =>
      others.checkFrom .copy json
  | composite name _ _ _, json => .error (.invalidType json ("struct " ++ name))
  | oneOf name forms, json => if fits forms json then .ok () else .error (.noForm name)
  | tagged tag forms, .object entries =>
    match Json.field? entries tag with
    | some (.string name) =>
      checkForm forms name (.object (entries.filter fun entry => entry.1 ≠ tag))
    | some json => .error (.invalidType json "the name of a variant")
    | none => .error (.missingField tag)
  | tagged _ forms, .array (.string name :: items) => checkForm forms name (.array items)
  | tagged tag _, json => .error (.invalidType json ("an object with a field " ++ tag))
  | orFlag _, .null | orFlag _, .bool _ => .ok ()
  | orFlag shape, json => shape.checkFrom .value json

/-- Checks a value against the field of its name, if there is one. -/
def checkField (source : Source) : List Field → (name : String) → Json → Except Fault Unit
  | [], _, _ => .ok ()
  | .mk own _ shape :: rest, name, json =>
    if own = name then shape.checkFrom source json else checkField source rest name json

/-- Checks an array against fields in order. -/
def checkItems (source : Source) (expected : String) (excess : Fault) (index : Nat) :
    List Field → List Json → Except Fault Unit
  | [], [] => .ok ()
  | [], _ :: _ => .error excess
  | .mk _ presence _ :: rest, [] =>
    if presence = .defaulted then checkItems source expected excess (index + 1) rest []
    else .error (.invalidLength index expected)
  | .mk _ _ shape :: rest, json :: items => do
    shape.checkFrom source json
    checkItems source expected excess (index + 1) rest items

/-- Checks the fields of the structures that another one is put together from, one by one. -/
def checkParts : List (List Field) → List (String × Json) → Except Fault Unit
  | [], _ => .ok ()
  | fields :: rest, entries => do
    entries.forM fun (name, json) => checkField .copy fields name json
    requireAll fields entries
    checkParts rest entries

/-- Whether a value has one of several shapes. -/
def fits : List Shape → Json → Bool
  | [], _ => false
  | shape :: rest, json => (shape.checkFrom .copy json).isOk || fits rest json

/-- Checks a value against the shape of some name. -/
def checkForm : List Field → (name : String) → Json → Except Fault Unit
  | [], name, _ => .error (.unknownVariant name [])
  | .mk own _ shape :: rest, name, json =>
    if own = name then shape.checkFrom .copy json else checkForm rest name json

end

/-- Fails with what is wrong first in a value that is not of a shape. -/
def check (shape : Shape) : Decoder Unit :=
  shape.checkFrom .value

/-- Reads a value once it is known to be of a shape. -/
def reading {α : Type} (shape : Shape) (decode : Decoder α) : Decoder α := fun json => do
  shape.check json
  decode json

end Shape

end StoryScript
