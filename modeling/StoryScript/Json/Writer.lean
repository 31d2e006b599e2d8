import StoryScript.Binary64.Decimal
import StoryScript.Json.Basic

/-!
Writing a JSON value as one line without spaces.
-/

namespace StoryScript.Json

def hexDigits : List Char := "0123456789abcdef".toList

/-- A character of a string: quotes, backslashes and control characters are escaped. -/
def writeChar (c : Char) : String :=
  match c with
  | '"' => "\\\""
  | '\\' => "\\\\"
  | '\x08' => "\\b"
  | '\x0c' => "\\f"
  | '\n' => "\\n"
  | '\r' => "\\r"
  | '\t' => "\\t"
  | c =>
    if c.toNat < 0x20 then
      "\\u00" ++ String.ofList [hexDigits.getD (c.toNat / 16) '0', hexDigits.getD (c.toNat % 16) '0']
    else c.toString

def writeString (text : String) : String :=
  text.toList.foldl (fun written c => written ++ writeChar c) "\"" ++ "\""

def writeInt (value : Int) : String :=
  match value with
  | .ofNat n => Nat.repr n
  | .negSucc n => "-" ++ Nat.repr (n + 1)

/-- A floating-point number by its shortest digits. It is written without an exponent from
`0.00001` up to sixteen digits before the point, and always with a point or an exponent. -/
def writeFloat (value : Binary64) : String :=
  let (digits, power) := value.shortest
  let text := (Nat.repr digits).toList
  let point : Int := text.length + power
  let unsigned :=
    if 0 ≤ power ∧ point ≤ 16 then text ++ List.replicate power.toNat '0' ++ ['.', '0']
    else if 0 < point ∧ point ≤ 16 then text.take point.toNat ++ '.' :: text.drop point.toNat
    else if -5 < point ∧ point ≤ 0 then ['0', '.'] ++ List.replicate point.natAbs '0' ++ text
    else
      text.take 1 ++ (if text.length = 1 then [] else '.' :: text.drop 1) ++
        ['e', if 0 < point then '+' else '-'] ++ (Nat.repr (point - 1).natAbs).toList
  (if value.negative then "-" else "") ++ String.ofList unsigned

def writeNumber : Number → String
  | .int value => writeInt value
  | .float value => writeFloat value

mutual

/-- The value's text, added to the text written so far. -/
def writeOnto (written : String) : Json → String
  | null => written ++ "null"
  | bool value => written ++ if value then "true" else "false"
  | number value => written ++ writeNumber value
  | string value => written ++ writeString value
  | array items => writeItems (written ++ "[") true items ++ "]"
  | object fields => writeFields (written ++ "\x7b") true fields ++ "\x7d"

def writeItems (written : String) (isFirst : Bool) : List Json → String
  | [] => written
  | item :: rest =>
    writeItems (writeOnto (if isFirst then written else written ++ ",") item) false rest

def writeFields (written : String) (isFirst : Bool) : List (String × Json) → String
  | [] => written
  | (key, value) :: rest =>
    let start := (if isFirst then written else written ++ ",") ++ writeString key ++ ":"
    writeFields (writeOnto start value) false rest

end

/-- The text of a value. -/
def write (json : Json) : String :=
  writeOnto "" json

end StoryScript.Json
