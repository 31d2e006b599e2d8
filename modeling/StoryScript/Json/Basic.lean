import StoryScript.Binary64.Basic
import StoryScript.Table

/-!
JSON values. Objects are lists of fields, so that a text can be read without loss; `Json.normal`
gives every object its fields sorted and each key once.
-/

namespace StoryScript

/-- A number: an integer of at most 64 bits, or a floating-point number, which is kept apart even
where its value is whole. -/
inductive Number where
  | int (value : Int)
  | float (value : Binary64)
deriving DecidableEq, Inhabited

inductive Json where
  | null
  | bool (value : Bool)
  | number (value : Number)
  | string (value : String)
  | array (items : List Json)
  | object (fields : List (String × Json))
deriving Inhabited

namespace Json

mutual

/-- Whether two values are the same, with their fields in the same order. -/
def decideEq : (first second : Json) → Decidable (first = second)
  | null, null => isTrue rfl
  | bool first, bool second => decidable_of_iff (first = second) (by simp)
  | number first, number second => decidable_of_iff (first = second) (by simp)
  | string first, string second => decidable_of_iff (first = second) (by simp)
  | array first, array second =>
    @decidable_of_iff _ (first = second) (by simp) (decideEqItems first second)
  | object first, object second =>
    @decidable_of_iff _ (first = second) (by simp) (decideEqFields first second)
  | null, bool _ | null, number _ | null, string _ | null, array _ | null, object _
  | bool _, null | bool _, number _ | bool _, string _ | bool _, array _ | bool _, object _
  | number _, null | number _, bool _ | number _, string _ | number _, array _
  | number _, object _ | string _, null | string _, bool _ | string _, number _
  | string _, array _ | string _, object _ | array _, null | array _, bool _ | array _, number _
  | array _, string _ | array _, object _ | object _, null | object _, bool _
  | object _, number _ | object _, string _ | object _, array _ => isFalse (by simp)

def decideEqItems : (first second : List Json) → Decidable (first = second)
  | [], [] => isTrue rfl
  | [], _ :: _ | _ :: _, [] => isFalse (by simp)
  | first :: rest, second :: others =>
    @decidable_of_iff _ (first = second ∧ rest = others) (by simp)
      (@instDecidableAnd _ _ (decideEq first second) (decideEqItems rest others))

def decideEqFields : (first second : List (String × Json)) → Decidable (first = second)
  | [], [] => isTrue rfl
  | [], _ :: _ | _ :: _, [] => isFalse (by simp)
  | (key, first) :: rest, (name, second) :: others =>
    @decidable_of_iff _ ((key = name ∧ first = second) ∧ rest = others) (by simp)
      (@instDecidableAnd _ _ (@instDecidableAnd _ _ inferInstance (decideEq first second))
        (decideEqFields rest others))

end

instance : DecidableEq Json := decideEq

def ofNat (value : Nat) : Json := number (.int value)

def ofInt (value : Int) : Json := number (.int value)

/-- The value of the last field with a key. -/
def field? (fields : List (String × Json)) (key : String) : Option Json :=
  (fields.reverse.find? fun field => field.1 = key).map Prod.snd

/-- The value of a key in an object; none in anything else. -/
def get? (json : Json) (key : String) : Option Json :=
  match json with
  | object fields => field? fields key
  | _ => none

mutual

/-- The value with the fields of every object sorted by key, the last one for each key. -/
def normal : Json → Json
  | array items => array (normalItems items)
  | object fields => object (Table.ofList (normalFields fields)).entries
  | json => json

def normalItems : List Json → List Json
  | [] => []
  | item :: rest => normal item :: normalItems rest

def normalFields : List (String × Json) → List (String × Json)
  | [] => []
  | (key, value) :: rest => (key, normal value) :: normalFields rest

end

/-- An object without the fields that have no value. -/
def ofOptions (fields : List (String × Option Json)) : Json :=
  object (fields.filterMap fun field => field.2.map (field.1, ·))

/-- An optional value, null if there is none. -/
def ofOption {α : Type} (encode : α → Json) : Option α → Json
  | none => null
  | some value => encode value

def ofList {α : Type} (encode : α → Json) (items : List α) : Json :=
  array (items.map encode)

def ofStrings (items : List String) : Json :=
  ofList string items

end Json

end StoryScript
