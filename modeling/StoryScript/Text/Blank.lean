import StoryScript.Text.CodeRange

/-!
White space: the characters with the Unicode property White_Space, and trimming them off a text.
-/

namespace StoryScript.Text

/-- The ranges of code points with the property White_Space, both ends included. -/
def whiteSpaceRanges : List (Nat × Nat) :=
  [(0x9, 0xd), (0x20, 0x20), (0x85, 0x85), (0xa0, 0xa0), (0x1680, 0x1680), (0x2000, 0x200a),
    (0x2028, 0x2029), (0x202f, 0x202f), (0x205f, 0x205f), (0x3000, 0x3000)]

def isWhiteSpace (c : Char) : Bool :=
  inRanges whiteSpaceRanges c

/-- A list without the longest run at its end that satisfies a property. -/
def trimEndWhile {α : Type} (drop : α → Bool) (items : List α) : List α :=
  (items.reverse.dropWhile drop).reverse

/-- A text without white space at either end. -/
def trim (text : String) : String :=
  String.ofList (trimEndWhile isWhiteSpace (text.toList.dropWhile isWhiteSpace))

end StoryScript.Text
