import StoryScript.Json.Writer
import StoryScript.Text.Quoted
import StoryScript.Uri.Error

/-!
Typed readings of JSON values. A reading fails with a `Fault`, which names the cause. A structure
is read from an object or, in the order of its fields, from an array (`Record`).
-/

namespace StoryScript.Json

/-- Why a value is not of the type asked for. -/
inductive Fault where
  | missingField (name : String)
  | duplicateField (name : String)
  | invalidType (found : Json) (expected : String)
  | invalidValue (found : Json) (expected : String)
  | invalidLength (length : Nat) (expected : String)
  | unknownVariant (name : String) (expected : List String)
  /-- None of a type's forms fits. -/
  | noForm (expected : String)
  | invalidUri (error : UriError) (text : String)
deriving Inhabited

/-- What a value is, in the words of a fault. -/
def describe : Json → String
  | null => "null"
  | bool value => "boolean `" ++ (if value then "true" else "false") ++ "`"
  | number (.int value) => "integer `" ++ writeInt value ++ "`"
  | number (.float value) => "floating point `" ++ writeFloat value ++ "`"
  | string value => "string " ++ Text.quoted value
  | array _ => "sequence"
  | object _ => "map"

/-- A choice between items, in the words of a fault. -/
def oneOf : List String → String
  | [] => "none"
  | [first] => first
  | [first, second] => first ++ " or " ++ second
  | items => "one of " ++ String.intercalate ", " items

def Fault.message : Fault → String
  | missingField name => "missing field `" ++ name ++ "`"
  | duplicateField name => "duplicate field `" ++ name ++ "`"
  | invalidType found expected => "invalid type: " ++ found.describe ++ ", expected " ++ expected
  | invalidValue found expected => "invalid value: " ++ found.describe ++ ", expected " ++ expected
  | invalidLength length expected =>
    "invalid length " ++ Nat.repr length ++ ", expected " ++ expected
  | unknownVariant name expected =>
    "unknown variant `" ++ name ++ "`, expected " ++ oneOf (expected.map fun item => "`" ++ item ++ "`")
  | noForm expected => "data did not match any variant of untagged enum " ++ expected
  | invalidUri error text => error.message ++ ": " ++ Text.quoted text

/-- A reading of a JSON value as a value of some type. -/
abbrev Decoder (α : Type) := Json → Except Fault α

namespace Decoder

def text : Decoder String
  | .string value => .ok value
  | json => .error (.invalidType json "a string")

def flag : Decoder Bool
  | .bool value => .ok value
  | json => .error (.invalidType json "a boolean")

/-- An integer between two bounds, both included. -/
def integer (low high : Int) (expected : String) : Decoder Int
  | .number (.int value) =>
    if low ≤ value ∧ value ≤ high then .ok value
    else .error (.invalidValue (.number (.int value)) expected)
  | json => .error (.invalidType json expected)

/-- A natural number below `2 ^ bits`. -/
def natural (bits : Nat) (expected : String) : Decoder Nat := fun json =>
  (integer 0 (Nat.pow 2 bits - 1) expected json).map Int.toNat

/-- A number of bytes, characters or items. -/
def count : Decoder Nat := natural 64 "usize"

/-- Any value, with the fields of its objects in order. -/
def any : Decoder Json := fun json => .ok json.normal

def list {α : Type} (item : Decoder α) : Decoder (List α)
  | .array items => items.mapM item
  | json => .error (.invalidType json "a sequence")

/-- A value that may be null. -/
def nullable {α : Type} (value : Decoder α) : Decoder (Option α)
  | .null => .ok none
  | json => (value json).map some

/-- A table, from an object; of two fields with one key the later one counts. -/
def table {κ β : Type} [Named κ] [DecidableEq κ] (key : Decoder κ) (value : Decoder β) :
    Decoder (Table κ β)
  | .object fields => do
    let entries ← fields.mapM fun field => do
      let name ← key (.string field.1)
      let content ← value field.2
      pure (name, content)
    pure (Table.ofList entries)
  | json => .error (.invalidType json "a map")

def keys {κ : Type} [Named κ] [DecidableEq κ] (key : Decoder κ) : Decoder (Keys κ) := fun json =>
  (list key json).map Keys.ofList

/-- One of a closed list of values by its name, alone or as the only key of an object whose value is
null. -/
def variant {α : Type} (values : List α) (nameOf : α → String) : Decoder α := fun json =>
  let named (name : String) : Except Fault α :=
    match values.find? fun value => nameOf value = name with
    | some value => .ok value
    | none => .error (.unknownVariant name (values.map nameOf))
  match json with
  | .string name => named name
  | .object [(name, content)] => do
    let value ← named name
    if content = .null then pure value else throw (.invalidType content "unit")
  | .object fields => .error (.invalidValue (.object fields) "map with a single key")
  | json => .error (.invalidType json "string or map")

end Decoder

/-- The fields of a structure that is being read. -/
structure Record where
  fields : List (String × Json)
  /-- If the fields came as an array, where none but the last ones can be left out: what the array
  should have been. -/
  arrayShape : Option String

namespace Record

/-- The first name that occurs twice. -/
def repeated? (names : List String) : List (String × Json) → Option String
  | [] => none
  | (key, _) :: rest =>
    if key ∈ names ∧ rest.any (fun field => field.1 = key) then some key else repeated? names rest

/-- Opens an object, or an array with the fields in the given order. Fields of other names are
passed over. -/
def ofJson (expected : String) (names : List String) : Json → Except Fault Record
  | .object fields =>
    match repeated? names fields with
    | some name => .error (.duplicateField name)
    | none => .ok ⟨fields, none⟩
  | .array items =>
    if items.length ≤ names.length then
      let size := Nat.repr names.length ++ (if names.length = 1 then " element" else " elements")
      .ok ⟨names.zip items, some (expected ++ " with " ++ size)⟩
    else .error (.invalidLength items.length "fewer elements in array")
  | json => .error (.invalidType json expected)

/-- Opens an object, and nothing else. -/
def ofObject (expected : String) (names : List String) : Json → Except Fault Record
  | .array items => .error (.invalidType (.array items) expected)
  | json => ofJson expected names json

/-- A field that may be left out. -/
def field? {α : Type} (record : Record) (name : String) (decode : Decoder α) :
    Except Fault (Option α) :=
  match Json.field? record.fields name with
  | some json => (decode json).map some
  | none => .ok none

/-- The value of a field that may not be left out. -/
def need {α : Type} (record : Record) (name : String) : Option α → Except Fault α
  | some value => .ok value
  | none =>
    match record.arrayShape with
    | some shape => .error (.invalidLength record.fields.length shape)
    | none => .error (.missingField name)

def required {α : Type} (record : Record) (name : String) (decode : Decoder α) :
    Except Fault α := do
  record.need name (← record.field? name decode)

/-- A field that has a default. -/
def defaulted {α : Type} (record : Record) (name : String) (default : α) (decode : Decoder α) :
    Except Fault α := do
  pure ((← record.field? name decode).getD default)

/-- A field that may be null or left out. -/
def optional {α : Type} (record : Record) (name : String) (decode : Decoder α) :
    Except Fault (Option α) :=
  record.defaulted name none (Decoder.nullable decode)

/-- A field that may be null and, in an object, left out. -/
def nullable {α : Type} (record : Record) (name : String) (decode : Decoder α) :
    Except Fault (Option α) := do
  match ← record.field? name (Decoder.nullable decode) with
  | some value => pure value
  | none => if record.arrayShape.isSome then record.need name none else pure none

end Record

end StoryScript.Json
