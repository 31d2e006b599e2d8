/-!
Punycode: a label with characters beyond ASCII as a label of ASCII letters, digits and hyphens. The
ASCII characters come first; then follows, for each other character in the order of code points,
how many positions it lies behind the last one, as a number of variable length.
-/

namespace StoryScript.Punycode

def base : Nat := 36

/-- The least and the largest digit that can end a number. -/
def minThreshold : Nat := 1

def maxThreshold : Nat := 26

def initialBias : Nat := 72

/-- The first code point beyond ASCII. -/
def initialCode : Nat := 0x80

def digitChar (value : Nat) : Char :=
  Char.ofNat (if value < 26 then 'a'.toNat + value else '0'.toNat + (value - 26))

def digitValue? (c : Char) : Option Nat :=
  if 'a' ≤ c && c ≤ 'z' then some (c.toNat - 'a'.toNat)
  else if 'A' ≤ c && c ≤ 'Z' then some (c.toNat - 'A'.toNat)
  else if c.isDigit then some (c.toNat - '0'.toNat + 26)
  else none

/-- A digit below this one ends a number at the given position. -/
def threshold (bias position : Nat) : Nat :=
  let place := base * (position + 1)
  if place ≤ bias + minThreshold then minThreshold
  else if bias + maxThreshold ≤ place then maxThreshold
  else place - bias

theorem threshold_pos (bias position : Nat) : 0 < threshold bias position := by
  grind [threshold, minThreshold, maxThreshold]

/-- Takes a distance down to a size at which the bias is proportional to it. -/
def reduce (delta steps : Nat) : Nat × Nat :=
  if 455 < delta then reduce (delta / 35) (steps + 1) else (delta, steps)
termination_by delta
decreasing_by omega

/-- The bias behind a distance between characters, when the label has grown to `count` characters. -/
def adapt (delta count : Nat) (isFirst : Bool) : Nat :=
  let scaled := if isFirst then delta / 700 else delta / 2
  let (delta, steps) := reduce (scaled + scaled / count) 0
  base * steps + base * delta / (delta + 38)

/-- A distance as a number of variable length. -/
def writeDelta (bias position delta : Nat) : List Char :=
  let limit := threshold bias position
  if delta < limit then [digitChar delta]
  else
    digitChar (limit + (delta - limit) % (base - limit)) ::
      writeDelta bias (position + 1) ((delta - limit) / (base - limit))
termination_by delta
decreasing_by
  have := threshold_pos bias position
  have := Nat.div_le_self (delta - threshold bias position) (base - threshold bias position)
  omega

/-- What has been written of a label. -/
structure Encoder where
  /-- The next code point to look for. -/
  code : Nat := initialCode
  /-- The positions passed since the last character. -/
  delta : Nat := 0
  bias : Nat := initialBias
  count : Nat
  isFirst : Bool := true
  written : List Char := []

namespace Encoder

/-- Passes a character of the label while looking for a code point. -/
def visit (code : Nat) (encoder : Encoder) (c : Char) : Encoder :=
  if c.toNat < code then { encoder with delta := encoder.delta + 1 }
  else if c.toNat = code then
    { encoder with
      delta := 0
      bias := adapt encoder.delta (encoder.count + 1) encoder.isFirst
      count := encoder.count + 1
      isFirst := false
      written := encoder.written ++ writeDelta encoder.bias 0 encoder.delta }
  else encoder

/-- Writes all occurrences of a code point. -/
def writeAll (label : List Char) (encoder : Encoder) (code : Nat) : Encoder :=
  let delta := encoder.delta + (code - encoder.code) * (encoder.count + 1)
  let encoder := label.foldl (visit code) { encoder with delta }
  { encoder with delta := encoder.delta + 1, code := code + 1 }

end Encoder

def isAscii (c : Char) : Bool := c.toNat < initialCode

/-- The ASCII text of a label. -/
def encode (label : List Char) : List Char :=
  let basic := label.filter isAscii
  let codes := ((label.filter (!isAscii ·)).map Char.toNat).mergeSort.eraseDups
  let encoder := codes.foldl (Encoder.writeAll label) { count := basic.length }
  basic ++ (if basic = [] then [] else ['-']) ++ encoder.written

/-- The bound of the weight of a digit. -/
def maxWeight : Nat := UInt32.size

/-- Reads a number of variable length, added to another one. -/
def readDelta? (bias position weight value : Nat) : List Char → Option (Nat × List Char)
  | [] => none
  | c :: rest =>
    match digitValue? c with
    | none => none
    | some digit =>
      let limit := threshold bias position
      let value := value + digit * weight
      if digit < limit then some (value, rest)
      else if weight * (base - limit) < maxWeight then
        readDelta? bias (position + 1) (weight * (base - limit)) value rest
      else none

theorem length_lt_of_readDelta? {bias position weight value next : Nat} {text rest : List Char}
    (h : readDelta? bias position weight value text = some (next, rest)) :
    rest.length < text.length := by
  induction text generalizing position weight value with
  | nil => simp [readDelta?] at h
  | cons c tail ih =>
    simp only [readDelta?] at h
    split at h
    · simp at h
    · split at h
      · simp_all
      · split at h
        · have := ih h
          simp only [List.length_cons]
          omega
        · simp at h

/-- Inserts the characters that a text names into a label. `position` is the place behind the last
one, and zero before the first. -/
def insertAll? (label : List Char) (code bias position : Nat) (text : List Char) :
    Option (List Char) :=
  if text = [] then some label
  else
    match h : readDelta? bias 0 1 position text with
    | none => none
    | some (place, rest) =>
      let count := label.length + 1
      let code := code + place / count
      let index := place % count
      if code.isValidChar then
        insertAll? (label.take index ++ Char.ofNat code :: label.drop index) code
          (adapt (place - position) count (position == 0)) (index + 1) rest
      else none
termination_by text.length
decreasing_by exact length_lt_of_readDelta? h

/-- The label of an ASCII text. -/
def decode? (text : List Char) : Option (List Char) :=
  match text.reverse.span (· ≠ '-') with
  | (rest, _ :: basic) =>
    if basic = [] then none
    else insertAll? basic.reverse initialCode initialBias 0 rest.reverse
  | (_, []) => insertAll? [] initialCode initialBias 0 text

end StoryScript.Punycode
