import StoryScript.Text.Mark

/-!
How characters of cursive scripts join their neighbours.
-/

namespace StoryScript.Text

/-- The ranges of the joining type L: they join what follows them. -/
def leftJoiningRanges : List (Nat × Nat) :=
  rangesOf "a87ig625rgqg22pg2crg"

/-- The ranges of the joining type R: they join what comes before them. -/
def rightJoiningRanges : List (Nat × Nat) :=
  rangesOf
    "62ijigigmj1mg2pi1l1h2ngjoigigjhig1ph2hglklgqgigigjg1ugsi1ghlgihkhcngmhigrgiivgihm1isg1siigjhng
    1020sgigihkkrgkgjgrg9igiikgjgihig1oj17mg1agg7hg2hg2gh3vijhjglhmg"

/-- The ranges of the joining type D: they join on both sides. -/
def dualJoiningRanges : List (Nat × Nat) :=
  rangesOf
    "62ggmgigiklsimih2khqu1j2lihqgigih2pijg1jimjioigigih2gqkujjigjijl4r2g5nkjgipigrgijjg1ugjkig1hpmh
    jliuf3vg1p5ov2hig8f9m3h624vkvjikiirj9igigkiihigjg1th15j2gig1aghih6pii1gti1tjjr2vgihlgjhihigjgmg
    d95o2h"

def joinsNext (c : Char) : Bool :=
  inRanges leftJoiningRanges c || inRanges dualJoiningRanges c

def joinsPrevious (c : Char) : Bool :=
  inRanges rightJoiningRanges c || inRanges dualJoiningRanges c

/-- The ranges of the joining type T besides marks. -/
def transparentRanges : List (Nat × Nat) :=
  rangesOf "cbvgng10d4hh23ngcd0sg"

/-- Whether others join across a character, as across all marks but U+1171E. -/
def isTransparent (c : Char) : Bool :=
  inRanges transparentRanges c || isMark c && c.toNat != 0x1171e

end StoryScript.Text
