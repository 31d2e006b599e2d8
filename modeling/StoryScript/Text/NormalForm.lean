import StoryScript.Text.CodeRange

/-!
Normalization form C of texts. A text is taken apart into base characters and marks, the marks behind
each base are put into canonical order, and what has a character of its own is put together again.
The tables hold the characters that occur in the names of domains, once these are mapped: there are
no capital letters among them.
-/

namespace StoryScript.Text

/-- The canonical combining classes but zero, with the ranges of code points that have them. -/
def combiningClasses : List (Nat × List (Nat × Nat)) :=
  (itemsOf (spelledOut
    "h33kk199sgum3eqhlirhkhe94ug60bnk51aqg14cpi,m16ffgh,n93sg8gH210C637rgaftgbig5hg8d7sg670ngbpg5ng6
    sgbjg5ih10qg7tgfA2ng18jg10pg3fvgcc0og,o309ph,p94tg8gQ26uh1hg7tg7Cecqgblh6dqh1vg9ug28ugekg6mh4nh1
    18sg7a8ng2mg9og8vg6tg13mgfng5e5ig60Arqgvg3qg7qh8sg7lgblg6jg8hi7ig8ggftB57nBq10uA3khaig5kg1jg5ig1
    amAjlhCaqh41etg,q5bgg,r5bhg,s5big,t5bjg,u5bkg,v5blg,1g5bmA6h5bnA6i5bogvA8j5bph,1k5brAdl5bsA6m5bt
    A6n5bByo5chA6p5ciA6qfb1uA7r64rg2alAas64sEat64tEau61og3mA9v61pC92g61qD9h65hA6i65iA6j67gA6k71Ak5kc
    5lA6rc5mg,6ne3oh,6re4oj,7mebAd7qecAd8hf7hg,8if7igojjAakf7kg,cq32hhlh1aaog,dm1dcuA7o31rgc1ug1c22s
    hok,dq1dfqg123gAvs31mjjkjjjqmjrikhljjh23nglA1nljg1rg9ghmgjg8kgnA64kA4jiihigkgiC1aqgrg5si3ui3kk1g
    Bwgkingjh5og5cmh1sgig8vgcng8augdtg6ng3mljgihjhmg1jgpg8A76pkjjAwlgoglg2qgkgig2epgkj883si18ng537jm
    3dggejg72tgA2asg41khii4nhkgij3jgigc1fmnoh136jg10hg2ehm,du59qg1Ah38sg16fkg,eg302uh,ei1d16tAgk5aug
    12frg54uh123jAkm30g1k2pijgkgkikilA7os11kk10rjiijlnhihjg1lg4sn3shjkih7omjjigjhjh4kgiAwkgjgiiigC1h
    ahmig2AyoAjk6qhkj2rkmtjhihiiniihjk5igihaqg58khjh3dmi47ug15tgdtg5un3kknhlhjki1hklij8hgimAuiohlg1k
    gkhcnhimihl2kmgjg2dihjjkAsmgigngbfviev1v787gglp2hh5hh1Ahh1bvgihkhmhig535vmoh54nk69lg2pgatg23vj4i
    k13uh9siig3mgig17si26kmkkeqg56dim664vk2hj9lidbsmi1gjmihik6lgahm17og3uj20ggfvgflgjgohmg24vl,eo31l
    glAvg1a9A423mg1b4cgh,ep35sgjgjBqqg,eq35thih178qg2eig")).map fun item =>
    (item.headD 0, rangesAfter 0 item.tail)

/-- The canonical combining class: zero for base characters, and for marks a number that they are
ordered by. No mark comes before U+0300. -/
def combiningClass (c : Char) : Nat :=
  if c.toNat < 0x300 then 0
  else
    match combiningClasses.find? fun entry => inRanges entry.2 c with
    | some entry => entry.1
    | none => 0

/-- A character that stands for two others. -/
structure Composite where
  first : Char
  second : Char
  whole : Char

/-- Characters that stand for two others, and these one after the other. -/
def compositesOf : List Nat → List Nat → List Composite
  | whole :: wholes, first :: second :: parts =>
    ⟨Char.ofNat first, Char.ofNat second, Char.ofNat whole⟩ :: compositesOf wholes parts
  | _, _ => []

def composites : List Composite :=
  compositesOf (codesOf (rangesOf (spelledOut
      "eglioiljkigN1kgXjmA3jD9C5lFtH1ShjC52jgvg1uSrkFfhlFbZ1AzoKf15tg1sk1qk6rg1nhBxli1pg4rgvgBdkA5iK
      5iEb12pk9qAa1hg25mgogjg9nh17sgjh4og3miAa7ognhih7vi8ugii2AoaeggiE1kg2pA6jhig2buFmZ1Z1Z1Z1Z1koC7
      Z1Z1Z1nnplrnpF5Kr3khlg1ggqikhpiijvg1akh1jg1vi3lglgA9ogig1rA9jB8nA4rkjhjhnhB52jj3hjnjd5vgiS1jC5
      nhiE11ngqgugiS1jC5nhiE11ngjjkgd4crg1rgabmAuvg8jh21sh3nAdpgjg3kgihfjhigfAl7tg47epnc4gi")))
    (numbersOf (spelledOut
      "6h30gB4hB4iB4jB4oB4q6j32n6lBylBylBylBtpBjpBjpBjpBju30j6vBovBovBovEjo7lAoB4hB4i7lBjpAeB4o6h30k
      B4mA42o6jAoB4iB4nB4s6kB4l30kB4mB4nA42o6lBon30iB4mB4nA42n6oBjp30jB4kB4mA42o6qBorBys30h6sE9s6uBe
      uBeuBev30kB4mB4r7iAt7iAtB9s7jAeB4i7jBjjBjkB9kB9l30jB4kB4mB4qB4rA42o7n30i7pB4q30hB4nB4s6v31AyA4
      6hBepCjA47lA4fs30kB4hfsEegekAj22nA5emA46nAp6rB4v32o1erBv9iBgqA4Bvh6u30gelA9emA4foBjh30vA41h6lB
      9lB9pB9pB9vB9vA97iA97iB9lB9lB9j32m7kA46o30s6h30n6l32nfm30kflA46vAj22vAa7pA43cq30h3bhC5lC5nC5pB
      5crFbo3clB5bvCnlC5Bz43o30m43AhgC5o43jBn5mCbqDzBt4Anm47Azv43mBb3gF5o43lBbdpCbmC5nC5o30kA5CbuB5e
      Cz4tC5jAtA5Fbr44nCbrA562n65jC5k64oA5Cbl64qBbdlB5chCbiA592o93s93gC5jB5cn9buB5dnb4nb5mB53uCbnb9i
      bAncmbbubcnC5mAhc4mc5mcbvcdlccmF5mB5ciccqAhd4md3ud4nA5Bb5nddpdcqC5vddsEbdv102lA3u1b0l1b3lA7nE7
      pE7rE7tD71hD73qE7sE7uE7vD74iB76h32l6i30nA42jA43hen30h6kBjkBjkAjB9Cet11j30gC5h6lAgA43g22p30m6m3
      0n6n30k6oA9A42jB9oB9Ceu6p33gev30h6rC4AyA43h6sA91e3n30k6sEgt6t30hB4n6tAv6uB9uC9AyB9tflAyB4o14t3
      0gC5h7gE4n7iD42j1e5r30kAb3h7jBljBlBkn16hB5e6CnkC4AsA43hB9t7l32kA43gB9t16p30h16r30o7m30jA42j7n3
      0gB4hB4oB4n7nBooB9oBjpB9q30i7qAoA43h6oA47kBtn30qByq6hAtA40pei30hB4geiEej1eaAqi10jArC5gC5pA5Gum
      6l32j6lAmB4jeq30hB4gB4pB4j1ebp30i6pAgA42j6vC4Aefk30hB4gfkEej1ect30i1ahArC5gC5pC5jB52j7lC4Blbg3
      0hC5gA5FhjA5BypAm7pE9pB4j3bh31D5k1f0gAxA6hA6DdhDdhCd4iBdA63bl31jC5k1f1g30gA6hA6DdhDdh3bn31jC5k
      1f2gCw2hA6DdhDdhCd4iBdA63bp31jC5k1f3g30gA6hA6DdhDdhCd4iBdA63bv31jC5k1f4g30gA6hA6DdhDdh3cl31jC5
      k1f5gCw5hA6DdhDdhCd4iBdA63cp31jC5k1f6g30gA6hA6DdhDdhCd4iBdA63bBx3blC5nC5pC5vB5clC5Dhh30mC5kB54
      i3bnC5pCnpBncq30gAbAnAbC5lAtA5CtrBtch31jC5kAnCzrC5pA5219g33oA6iD6kC6dgD6EdCr20jD6oD6rC62jD6lC6
      3sC64jD6lD6oA63tCb6hDitBisB4uDnkD6lC67iD6jD6mD6nD6qD6rC68iD6jD6mD6nC6aiD6oD6pD6rC67sD6tC69hD6i
      C6bE6jD6kD6lA6304r309pA7tE7vD75hE7jE7lE7nE7pE7rE7tE7vD76hE7kE7mE7oE7vI7q307iBfB7EflEflEfoEfoEf
      rEfrDf4mDf9tD7arE7FfvD7bhE7jE7lE7nE7pE7rE7tE7vD7chE7kE7mE7oE7vI7q30diBfB7EflEflEfoEfoEfrEfrDfa
      mDfevD7fgE7hE7iE7tB7105dAgnB7qB71AkA4bqB9rF9alE913hA42nB9iE934B43uF95B48iA4cpB9kA4brB9rBjBo9gC
      tCeK4boC9Et4bC4qG9gG9t115boA4avB9pE993lB4g1611uK42pGevGevGtgB4hGtiG9hEtd6nG4jG9pC9"))

namespace Hangul

/-- Syllables are numbered by their leading consonant, their vowel and their trailing consonant. -/
def firstSyllable : Nat := 0xac00

def firstLead : Nat := 0x1100

def firstVowel : Nat := 0x1161

/-- One less than the first trailing consonant. -/
def noTrail : Nat := 0x11a7

def leadCount : Nat := 19

def vowelCount : Nat := 21

/-- The trailing consonants, and none. -/
def trailCount : Nat := 28

def isSyllable (c : Char) : Bool :=
  firstSyllable ≤ c.toNat && c.toNat < firstSyllable + leadCount * vowelCount * trailCount

def decompose (syllable : Char) : List Char :=
  let index := syllable.toNat - firstSyllable
  let trail := index % trailCount
  [Char.ofNat (firstLead + index / (vowelCount * trailCount)),
    Char.ofNat (firstVowel + index / trailCount % vowelCount)] ++
    (if trail = 0 then [] else [Char.ofNat (noTrail + trail)])

def compose? (first second : Char) : Option Char :=
  let isLead := firstLead ≤ first.toNat && first.toNat < firstLead + leadCount
  let isVowel := firstVowel ≤ second.toNat && second.toNat < firstVowel + vowelCount
  let isTrail := noTrail < second.toNat && second.toNat < noTrail + trailCount
  if isLead && isVowel then
    let lead := first.toNat - firstLead
    let vowel := second.toNat - firstVowel
    some (Char.ofNat (firstSyllable + (lead * vowelCount + vowel) * trailCount))
  else if isSyllable first && (first.toNat - firstSyllable) % trailCount == 0 && isTrail then
    some (Char.ofNat (first.toNat + (second.toNat - noTrail)))
  else none

end Hangul

/-- The most composites that stand in one another. -/
def maxNesting : Nat := 4

/-- The base character and the marks that a character stands for. ASCII characters stand for
themselves. -/
def decomposeChar : (depth : Nat) → Char → List Char
  | 0, c => [c]
  | depth + 1, c =>
    if c.toNat < 0x80 then [c]
    else if Hangul.isSyllable c then Hangul.decompose c
    else
      match composites.find? fun composite => composite.whole = c with
      | some composite => decomposeChar depth composite.first ++ [composite.second]
      | none => [c]

/-- Adds a character in front of a text whose marks are in order. -/
def insertMark (mark : Char) : List Char → List Char
  | [] => [mark]
  | c :: rest =>
    if 0 < combiningClass c ∧ combiningClass c < combiningClass mark then c :: insertMark mark rest
    else mark :: c :: rest

/-- The text with the marks behind each base character in order. -/
def orderMarks (text : List Char) : List Char :=
  text.foldr insertMark []

/-- The character that stands for two others. An ASCII character is never the second one. -/
def compose? (first second : Char) : Option Char :=
  if second.toNat < 0x80 then none
  else
    match Hangul.compose? first second with
    | some whole => some whole
    | none =>
      (composites.find? fun composite => composite.first = first ∧ composite.second = second).map
        Composite.whole

/-- Puts characters together: each mark joins the base character before it unless an earlier mark is
in its way. `marks` are those behind the base that stay, in reverse. -/
def composeFrom (base : Char) (marks : List Char) : List Char → List Char
  | [] => base :: marks.reverse
  | c :: rest =>
    let isFree := match marks with
      | [] => true
      | last :: _ => combiningClass last < combiningClass c
    match if isFree then compose? base c else none with
    | some whole => composeFrom whole marks rest
    | none =>
      if combiningClass c = 0 then base :: marks.reverse ++ composeFrom c [] rest
      else composeFrom base (c :: marks) rest

/-- The text from its first base character on put together. -/
def composeAll : List Char → List Char
  | [] => []
  | c :: rest => if combiningClass c = 0 then composeFrom c [] rest else c :: composeAll rest

/-- The normalization form C of a text. -/
def normalForm (text : List Char) : List Char :=
  composeAll (orderMarks (text.flatMap (decomposeChar maxNesting)))

end StoryScript.Text
