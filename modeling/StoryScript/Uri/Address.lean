import StoryScript.Text.Bytes
import StoryScript.Text.Hex

/-!
Addresses of hosts. An address of 32 bits is written as four decimal numbers, one of 128 bits as
eight hexadecimal ones, of which a run of zeros is left out.
-/

namespace StoryScript.Address

/-- The number that digits of some base stand for. -/
def numberOf? (base : Nat) (digits : List Char) : Option Nat :=
  digits.foldlM (fun value c =>
    match Text.hexValue? c with
    | some digit => if digit < base then some (value * base + digit) else none
    | none => none) 0

/-- One number of a short address: decimal, hexadecimal behind `0x`, octal behind a zero. -/
def partValue? (text : List Char) : Option Nat :=
  match text with
  | [] => none
  | '0' :: 'x' :: digits | '0' :: 'X' :: digits => numberOf? 16 digits
  | '0' :: digit :: digits => numberOf? 8 (digit :: digits)
  | digits => numberOf? 10 digits

/-- The parts of a host between its dots. The dot at the end of a name divides nothing. -/
def dottedParts (host : List Char) : List (List Char) :=
  let parts := host.splitOn '.'
  if parts.getLast? = some [] then parts.dropLast else parts

/-- Whether a host is to be read as a short address: its last part is a number. -/
def endsInNumber (host : List Char) : Bool :=
  match (dottedParts host).getLast? with
  | none => false
  | some last => last ≠ [] && (last.all Char.isDigit || (partValue? last).isSome)

/-- The value of a short address. The last of its parts fills the bytes that the others leave. -/
def short? (host : List Char) : Option Nat := do
  let numbers ← (dottedParts host).mapM partValue?
  let last ← numbers.getLast?
  let leading := numbers.dropLast
  let room := Nat.pow 256 (4 - leading.length)
  if numbers.length ≤ 4 ∧ leading.all (· < 256) ∧ last < room then
    pure (leading.foldl (fun value byte => value * 256 + byte) 0 * room + last)
  else none

def shortText (value : Nat) : String :=
  Text.join "." ([3, 2, 1, 0].map fun place => Nat.repr (value / Nat.pow 256 place % 256))

/-- The pieces of a long address that have been read. -/
structure Pieces where
  /-- The pieces so far, in reverse. -/
  read : List Nat := []
  /-- How many pieces stand before the run of zeros that is left out, with the first zero. -/
  gap : Option Nat := none

/-- The address of pieces: eight of them, or fewer and a gap. -/
def Pieces.finish? (pieces : Pieces) : Option (List Nat) :=
  let all := pieces.read.reverse
  match pieces.gap with
  | some count => some (all.take count ++ List.replicate (8 - all.length) 0 ++ all.drop count)
  | none => if all.length = 8 then some all else none

/-- One decimal number within a long address, without a zero in front. -/
def byteValue? (digits : List Char) : Option Nat :=
  if digits = [] || (digits.head? == some '0' && digits ≠ ['0']) then none
  else (numberOf? 10 digits).filter (· < 256)

/-- The two pieces of a short address at the end of a long one. -/
def embedded? (text : List Char) : Option (Nat × Nat) :=
  match (text.splitOn '.').mapM byteValue? with
  | some [first, second, third, fourth] => some (first * 256 + second, third * 256 + fourth)
  | _ => none

/-- Reads the pieces of a long address. -/
def readPieces? (pieces : Pieces) (text : List Char) : Option (List Nat) :=
  match text with
  | [] => pieces.finish?
  | ':' :: rest =>
    if pieces.read.length = 8 || pieces.gap.isSome then none
    else
      readPieces? { read := 0 :: pieces.read, gap := some (pieces.read.length + 1) } rest
  | c :: rest =>
    let digits := ((c :: rest).take 4).takeWhile fun c => (Text.hexValue? c).isSome
    let value := Text.hexNumber digits
    if pieces.read.length = 8 then none
    else
      match _left : (c :: rest).drop digits.length with
      | [] => { pieces with read := value :: pieces.read }.finish?
      | '.' :: _ =>
        if digits = [] || 6 < pieces.read.length then none
        else
          (embedded? (c :: rest)).bind fun (high, low) =>
            { pieces with read := low :: high :: pieces.read }.finish?
      | ':' :: after =>
        if after = [] then none
        else readPieces? { pieces with read := value :: pieces.read } after
      | _ => none
termination_by text.length
decreasing_by
  · simp
  · have := congrArg List.length _left
    simp only [List.length_drop, List.length_cons] at this ⊢
    omega

/-- The eight pieces of a long address. -/
def long? (text : List Char) : Option (List Nat) :=
  match text with
  | ':' :: ':' :: rest => readPieces? { read := [0], gap := some 1 } rest
  | [] | [_] | ':' :: _ => none
  | text => readPieces? {} text

/-- How many zeros a list starts with. -/
def zeroRun (pieces : List Nat) : Nat :=
  (pieces.takeWhile (· == 0)).length

/-- Where the longest run of zeros starts, and its length; of two the first one. -/
def longestZeroRun (pieces : List Nat) : Nat × Nat :=
  (List.range pieces.length).foldl (fun best start =>
    let length := zeroRun (pieces.drop start)
    if best.2 < length then (start, length) else best) (0, 0)

/-- A long address: its pieces with colons between them, and no more than a colon in place of the
longest run of zeros. -/
def longText (pieces : List Nat) : String :=
  let (start, length) := longestZeroRun pieces
  let text (part : List Nat) : String := Text.join ":" (part.map Text.hexText)
  if length < 2 then text pieces
  else text (pieces.take start) ++ "::" ++ text (pieces.drop (start + length))

end StoryScript.Address
