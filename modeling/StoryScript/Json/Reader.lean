import StoryScript.Binary64.Decimal
import StoryScript.Json.Basic
import StoryScript.Text.Hex

/-!
Reading a JSON value from the front of a text, one character at a time. `Json.readFirst?` leaves
what stands behind the value; `Json.read?` asks for nothing but white space there. A value may be
nested 127 levels deep, and a number has to be within the range of a double.
-/

namespace StoryScript.Json

/-- The place in a number: what has been read of it. -/
inductive NumberPart where
  | minus
  | zero
  | whole
  | point
  | fraction
  | mark
  | sign
  | power
deriving DecidableEq

/-- What a character does to a number that is being read. -/
inductive NumberStep where
  | extend (part : NumberPart)
  | finish
  | reject

def isExponentMark (c : Char) : Bool := c == 'e' || c == 'E'

namespace NumberPart

/-- Whether a number may end here. -/
def isComplete : NumberPart → Bool
  | zero | whole | fraction | power => true
  | _ => false

def next (part : NumberPart) (c : Char) : NumberStep :=
  match part with
  | minus => if c = '0' then .extend zero else if c.isDigit then .extend whole else .reject
  | zero =>
    if c.isDigit then .reject
    else if c = '.' then .extend point
    else if isExponentMark c then .extend mark
    else .finish
  | whole =>
    if c.isDigit then .extend whole
    else if c = '.' then .extend point
    else if isExponentMark c then .extend mark
    else .finish
  | point => if c.isDigit then .extend fraction else .reject
  | fraction =>
    if c.isDigit then .extend fraction
    else if isExponentMark c then .extend mark
    else .finish
  | mark =>
    if c.isDigit then .extend power
    else if c = '+' || c = '-' then .extend sign
    else .reject
  | sign => if c.isDigit then .extend power else .reject
  | power => if c.isDigit then .extend power else .finish

end NumberPart

/-- The number that a run of decimal digits stands for. -/
def digitsValue (digits : List Char) : Nat :=
  digits.foldl (fun value c => value * 10 + (c.toNat - '0'.toNat)) 0

/-- Adds digits to a number of 64 bits for as long as it does not overflow, and leaves the others. -/
def takeDigits (value : Nat) : List Char → Nat × List Char
  | [] => (value, [])
  | c :: rest =>
    let next := value * 10 + (c.toNat - '0'.toNat)
    if next < UInt64.size then takeDigits next rest else (value, c :: rest)

/-- The largest exponent that is told apart from larger ones. -/
def maxExponent : Nat := Nat.pow 2 31 - 1

/-- The number that a text in the form of a number stands for. Of the digits the first ones count, as
many as a number of 64 bits holds. -/
def numberOf? (text : List Char) : Option Number :=
  let negative := text.head? == some '-'
  let unsigned := if negative then text.drop 1 else text
  let whole := unsigned.takeWhile Char.isDigit
  let rest := unsigned.drop whole.length
  let fraction := if rest.head? = some '.' then (rest.drop 1).takeWhile Char.isDigit else []
  let tail := rest.dropWhile fun c => !isExponentMark c
  let power := digitsValue (tail.filter Char.isDigit)
  let (digits, left) := takeDigits 0 whole
  if rest = [] ∧ left = [] ∧ !negative then some (.int digits)
  else if rest = [] ∧ left = [] ∧ 0 < digits ∧ digits ≤ Nat.pow 2 63 then some (.int (-digits))
  else
    let (digits, unread) := takeDigits digits fraction
    let scale : Int := (left.length : Int) - (fraction.length - unread.length : Nat)
    let float :=
      if tail.contains '-' then
        if maxExponent < power then some (Binary64.zero negative)
        else Binary64.ofDecimal? negative digits (scale - power)
      else if maxExponent < power then
        if digits = 0 then some (Binary64.zero negative) else none
      else Binary64.ofDecimal? negative digits (scale + power)
    float.map .float

/-- The place in an escape sequence of a string. -/
inductive Escape where
  | none
  | backslash
  /-- In the four digits of a code unit, behind the first half of a surrogate pair or not. -/
  | unit (count value : Nat) (lead : Option Nat)
  /-- Behind the first half of a surrogate pair. -/
  | pair (lead : Nat)
  /-- Behind the backslash that follows the first half of a surrogate pair. -/
  | pairBackslash (lead : Nat)

/-- An array or object that is still open. -/
inductive Frame where
  | array (items : List Json)
  | object (fields : List (String × Json)) (key : String)

/-- What the reader is in the middle of. -/
inductive Mode where
  | value
  /-- Behind an opening bracket. -/
  | firstItem
  /-- Behind an opening brace. -/
  | firstKey
  | key
  | colon
  /-- Behind a value within an array or object. -/
  | next
  | word (rest : List Char) (result : Json)
  | number (part : NumberPart) (read : List Char)
  /-- In a string, which is a key or a value; its characters so far in reverse. -/
  | string (isKey : Bool) (read : List Char) (escape : Escape)

structure Reader where
  /-- The open arrays and objects, innermost first, their contents in reverse. -/
  stack : List Frame
  mode : Mode

/-- The outcome of one character. -/
inductive ReadStep where
  | more (reader : Reader)
  /-- The value ends with the character. -/
  | done (result : Json)
  /-- The value ended before the character. -/
  | doneBefore (result : Json)

namespace Reader

/-- The most levels of arrays and objects that may be open at once. -/
def maxDepth : Nat := 127

def start : Reader := ⟨[], .value⟩

/-- The reader behind a complete value. -/
def supply (stack : List Frame) (value : Json) : ReadStep :=
  match stack with
  | [] => .done value
  | .array items :: outer => .more ⟨.array (value :: items) :: outer, .next⟩
  | .object fields key :: outer => .more ⟨.object ((key, value) :: fields) key :: outer, .next⟩

/-- Closes the innermost array or object. -/
def close (stack : List Frame) : Option ReadStep :=
  match stack with
  | [] => none
  | .array items :: outer => some (supply outer (.array items.reverse))
  | .object fields _ :: outer => some (supply outer (.object fields.reverse))

def isSpace (c : Char) : Bool :=
  c == ' ' || c == '\n' || c == '\t' || c == '\r'

/-- The first character of a value. -/
def beginValue (stack : List Frame) (c : Char) : Option ReadStep :=
  if c = '"' then some (.more ⟨stack, .string false [] .none⟩)
  else if c = '[' then
    if stack.length < maxDepth then some (.more ⟨.array [] :: stack, .firstItem⟩) else none
  else if c = '\x7b' then
    if stack.length < maxDepth then some (.more ⟨.object [] "" :: stack, .firstKey⟩) else none
  else if c = 'n' then some (.more ⟨stack, .word ['u', 'l', 'l'] .null⟩)
  else if c = 't' then some (.more ⟨stack, .word ['r', 'u', 'e'] (.bool true)⟩)
  else if c = 'f' then some (.more ⟨stack, .word ['a', 'l', 's', 'e'] (.bool false)⟩)
  else if c = '-' then some (.more ⟨stack, .number .minus [c]⟩)
  else if c = '0' then some (.more ⟨stack, .number .zero [c]⟩)
  else if c.isDigit then some (.more ⟨stack, .number .whole [c]⟩)
  else none

/-- A character behind a value within an array or object. -/
def afterValue (stack : List Frame) (c : Char) : Option ReadStep :=
  if isSpace c then some (.more ⟨stack, .next⟩)
  else
    match stack with
    | .array _ :: _ =>
      if c = ',' then some (.more ⟨stack, .value⟩) else if c = ']' then close stack else none
    | .object _ _ :: _ =>
      if c = ',' then some (.more ⟨stack, .key⟩) else if c = '\x7d' then close stack else none
    | [] => none

/-- The end of a string. -/
def endString (stack : List Frame) (isKey : Bool) (read : List Char) : Option ReadStep :=
  let text := String.ofList read.reverse
  if isKey then
    match stack with
    | .object fields _ :: outer => some (.more ⟨.object fields text :: outer, .colon⟩)
    | _ => none
  else some (supply stack (.string text))

/-- The character that a one-letter escape stands for. -/
def escaped? (c : Char) : Option Char :=
  match c with
  | '"' => some '"'
  | '\\' => some '\\'
  | '/' => some '/'
  | 'b' => some '\x08'
  | 'f' => some '\x0c'
  | 'n' => some '\n'
  | 'r' => some '\r'
  | 't' => some '\t'
  | _ => none

/-- A code unit in a string, behind the first half of a surrogate pair or not. A half without its
partner is refused. -/
def endUnit (read : List Char) (unit : Nat) (lead : Option Nat) :
    Option (List Char × Escape) :=
  match lead with
  | none =>
    if 0xd800 ≤ unit && unit < 0xdc00 then some (read, .pair unit)
    else if 0xdc00 ≤ unit && unit < 0xe000 then none
    else some (Char.ofNat unit :: read, .none)
  | some first =>
    if 0xdc00 ≤ unit && unit < 0xe000 then
      some (Char.ofNat (0x10000 + (first - 0xd800) * 0x400 + (unit - 0xdc00)) :: read, .none)
    else none

/-- A character of a string other than its end. -/
def inString (read : List Char) (escape : Escape) (c : Char) : Option (List Char × Escape) :=
  match escape with
  | .none =>
    if c = '\\' then some (read, .backslash) else if c.toNat < 0x20 then none
    else some (c :: read, .none)
  | .backslash =>
    if c = 'u' then some (read, .unit 0 0 none)
    else (escaped? c).map fun meant => (meant :: read, .none)
  | .unit count value lead =>
    (Text.hexValue? c).bind fun digit =>
      if count = 3 then endUnit read (value * 16 + digit) lead
      else some (read, .unit (count + 1) (value * 16 + digit) lead)
  | .pair lead => if c = '\\' then some (read, .pairBackslash lead) else none
  | .pairBackslash lead => if c = 'u' then some (read, .unit 0 0 (some lead)) else none

def step (reader : Reader) (c : Char) : Option ReadStep :=
  let stack := reader.stack
  match reader.mode with
  | .value => if isSpace c then some (.more reader) else beginValue stack c
  | .firstItem =>
    if isSpace c then some (.more reader)
    else if c = ']' then close stack
    else beginValue stack c
  | .firstKey =>
    if isSpace c then some (.more reader)
    else if c = '\x7d' then close stack
    else if c = '"' then some (.more ⟨stack, .string true [] .none⟩)
    else none
  | .key =>
    if isSpace c then some (.more reader)
    else if c = '"' then some (.more ⟨stack, .string true [] .none⟩)
    else none
  | .colon =>
    if isSpace c then some (.more reader)
    else if c = ':' then some (.more ⟨stack, .value⟩)
    else none
  | .next => afterValue stack c
  | .word [] _ => none
  | .word [last] result => if c = last then some (supply stack result) else none
  | .word (expected :: rest) result =>
    if c = expected then some (.more ⟨stack, .word rest result⟩) else none
  | .number part read =>
    match part.next c with
    | .reject => none
    | .extend part => some (.more ⟨stack, .number part (c :: read)⟩)
    | .finish =>
      (numberOf? read.reverse).bind fun number =>
        match supply stack (.number number) with
        | .more reader => afterValue reader.stack c
        | .done result | .doneBefore result => some (.doneBefore result)
  | .string isKey read escape =>
    match escape with
    | .none =>
      if c = '"' then endString stack isKey read
      else (inString read .none c).map fun (read, escape) =>
        .more ⟨stack, .string isKey read escape⟩
    | escape =>
      (inString read escape c).map fun (read, escape) => .more ⟨stack, .string isKey read escape⟩

/-- The value that is complete once the text ends: only a number needs no closing character. -/
def finish? (reader : Reader) : Option Json :=
  match reader.stack, reader.mode with
  | [], .number part read =>
    if part.isComplete then (numberOf? read.reverse).map .number else none
  | _, _ => none

/-- Reads on to the end of the value. -/
def run? : Reader → List Char → Option (Json × List Char)
  | reader, [] => reader.finish?.map (·, [])
  | reader, c :: rest =>
    match reader.step c with
    | none => none
    | some (.more reader) => run? reader rest
    | some (.done result) => some (result, rest)
    | some (.doneBefore result) => some (result, c :: rest)

end Reader

/-- The value at the front of a text, and the text behind it. -/
def readFirst? (text : List Char) : Option (Json × List Char) :=
  Reader.start.run? text

/-- The value of a text. -/
def read? (text : String) : Option Json :=
  match readFirst? text.toList with
  | some (result, rest) => if rest.all Reader.isSpace then some result else none
  | none => none

end StoryScript.Json
