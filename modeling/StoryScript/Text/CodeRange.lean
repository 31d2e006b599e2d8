import StoryScript.Text.Hex

/-!
Tables of code points. Each is made from a property in the Unicode character database, which its name
tells, or from the mapping table for domain names: the code points that have the property are put into
rising order and gathered into ranges, and each range is written as two numbers, its distance from the
range before it and its extent (`rangesAfter`). What code points stand for follows in the same order.

Numbers are written in base sixteen, with nothing between them: the last digit of each is a letter
from `g` to `v`, which stand for the digits from zero on. So `4h1p` are sixty-five and twenty-five.
Blanks and line breaks do not count. A long text may be shortened where it repeats itself: a capital
letter and a digit in base thirty-six stand for a stretch of the text before them (`spelledOut`).
-/

namespace StoryScript.Text

/-- Lengthens a text that is written backwards, each time by the character at a distance. -/
def repeatBack (distance : Nat) : (count : Nat) → List Char → List Char
  | 0, done => done
  | count + 1, done => repeatBack distance count (done.getD distance ' ' :: done)

/-- Spells out a shortened text, behind what is spelled out already and written backwards. From `A`
on, a capital letter repeats three characters and more. The digit behind it tells how far back they
begin, where the last character so far is at zero. -/
def spelledAfter (done : List Char) : List Char → List Char
  | c :: d :: rest =>
    if c.isUpper then
      let distance := d.toNat - (if d.isDigit then '0'.toNat else 'a'.toNat - 10)
      spelledAfter (repeatBack distance (c.toNat - 'A'.toNat + 3) done) rest
    else spelledAfter (c :: done) (d :: rest)
  | rest => done.reverse ++ rest

def spelledOut (text : String) : String :=
  String.ofList (spelledAfter [] (text.toList.filter fun c => !c.isWhitespace))

/-- The numbers of a text, behind the digits of a number that has begun. -/
def numbersAfter (begun : Nat) : List Char → List Nat
  | [] => []
  | c :: rest =>
    if 'g' ≤ c then (begun * 16 + (c.toNat - 'g'.toNat)) :: numbersAfter 0 rest
    else
      match hexValue? c with
      | some digit => numbersAfter (begun * 16 + digit) rest
      | none => numbersAfter begun rest

def numbersOf (text : String) : List Nat :=
  numbersAfter 0 text.toList

/-- The numbers of texts that have commas between them. -/
def itemsOf (text : String) : List (List Nat) :=
  (text.toList.splitOn ',').map (numbersAfter 0)

/-- Ranges from numbers: how much later the first code point of each is than the last one of the
range before, and how much later its own last one is. -/
def rangesAfter (last : Nat) : List Nat → List (Nat × Nat)
  | distance :: extent :: rest =>
    let first := last + distance
    (first, first + extent) :: rangesAfter (first + extent) rest
  | _ => []

/-- The ranges of a set of code points from some on, both ends included. -/
def rangesFrom (start : Nat) (text : String) : List (Nat × Nat) :=
  rangesAfter start (numbersOf text)

def rangesOf (text : String) : List (Nat × Nat) :=
  rangesFrom 0 text

/-- Whether a character lies in one of the given ranges. -/
def inRanges (ranges : List (Nat × Nat)) (c : Char) : Bool :=
  ranges.any fun range => range.1 ≤ c.toNat && c.toNat ≤ range.2

/-- The code points of ranges. -/
def codesOf (ranges : List (Nat × Nat)) : List Nat :=
  ranges.flatMap fun range => List.range' range.1 (range.2 + 1 - range.1)

end StoryScript.Text
