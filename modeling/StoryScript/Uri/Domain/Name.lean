import StoryScript.Text.Bytes
import StoryScript.Text.Direction
import StoryScript.Text.Joining
import StoryScript.Text.NormalForm
import StoryScript.Uri.Domain.Mapping
import StoryScript.Uri.Domain.Punycode

/-!
Names of domains in ASCII (`Domain.toAscii?`). Characters are mapped and normalised, and each label
between two dots that then holds more than ASCII is written in Punycode behind `xn--`. A label that
comes in that form has to stand for one that could be written in it.
-/

namespace StoryScript.Domain

open Text

/-- The ASCII characters that do not occur in a name. -/
def isDenied (c : Char) : Bool :=
  c.toNat ≤ 0x20 || c.toNat == 0x7f || "%#/:<>?@[\\]^|".toList.contains c

/-- The combining class of the marks that join two consonants. -/
def viramaClass : Nat := 9

/-- The invisible characters that keep their neighbours apart and join them. -/
def nonJoiner : Char := '\u200c'

def joiner : Char := '\u200d'

/-- Whether every joiner of a label, and every non-joiner, changes how its neighbours look. The
characters before it are given in reverse. -/
def joinersFit (before : List Char) : List Char → Bool
  | [] => true
  | c :: rest =>
    let isBehindVirama := before.head?.any fun last => combiningClass last == viramaClass
    let splitsJoin := ((before.dropWhile isTransparent).head?.any joinsNext) &&
      ((rest.dropWhile isTransparent).head?.any joinsPrevious)
    (c != joiner || isBehindVirama) && (c != nonJoiner || isBehindVirama || splitsJoin) &&
      joinersFit (c :: before) rest

/-- Whether a label may stand in a name, its direction apart. None starts with a mark. -/
def isWellFormed (label : List Char) : Bool :=
  !(label.head?.any fun c => isMark c || isSpacingMark c) && joinersFit [] label

/-- What a label in Punycode starts with. -/
def punycodeMark : List Char := ['x', 'n', '-', '-']

/-- The most characters that are read from Punycode. -/
def maxEncoded : Nat := 2000

/-- The most characters that are written in Punycode. -/
def maxDecoded : Nat := 1000

/-- The label that a mapped one stands for. -/
def decodeLabel? (label : List Char) : Option (List Char) :=
  match dropStart? punycodeMark label with
  | none => some label
  | some encoded =>
    if encoded.length ≤ maxEncoded && encoded.all Punycode.isAscii then
      (Punycode.decode? encoded).filter fun decoded =>
        !decoded.all Punycode.isAscii && decoded.all isValid && normalForm decoded == decoded
    else none

def encodeLabel? (label : List Char) : Option String :=
  if label.all Punycode.isAscii then some (String.ofList label)
  else if label.length ≤ maxDecoded then
    some (String.ofList (punycodeMark ++ Punycode.encode label))
  else none

/-- The ASCII form of a name. -/
def toAscii? (name : String) : Option String := do
  let mapped ← name.toList.mapM mapChar?
  let normal := normalForm mapped.flatten
  let labels := normal.splitOn '.'
  let decoded ← labels.mapM decodeLabel?
  let directions := decoded.map fun label => label.map Direction.of
  let isOneWay := directions.all fun label => label.all fun direction => !direction.isRightward
  if normal.any isDenied || !decoded.all isWellFormed ||
      !(isOneWay || directions.all Direction.isUnambiguous) then none
  else
    let written ← labels.mapM encodeLabel?
    pure (join "." written)

end StoryScript.Domain
