import StoryScript.Text.Mark

/-!
The direction in which characters are written, as far as the names of domains depend on it.
-/

namespace StoryScript.Text

inductive Direction where
  | leftToRight
  | rightToLeft
  | arabicNumber
  | europeanNumber
  /-- Marks, which take the direction of what they stand on. -/
  | mark
  /-- Signs and symbols, which take the direction of what is around them. -/
  | neutral
deriving DecidableEq

/-- The ranges of the bidirectional classes R and AL. -/
def rightToLeftRanges : List (Nat × Nat) :=
  rangesOf
    "5bugigjgjgq1qll1kgjgigugi2t2jiijl5s1ghohr1jjgi1t1u5osgv2qqhlgk1nlgqgkgoui1omgiqm1v1h2pf2ep1g2bh
    g98tljgi2rihkgj1mi4npo3h1iihm2gl1pm1q2n3nl1jj2u1gjiii1sroooo3v2h2knrq3lr1lj1qm1pojtm5h4o7o3io2p
    2nl2g1mphfh2pkgjh1hlpg3g2np1lso1n1hlj2n1r1l1md80qckjo5j2hoglplh31i4j4t3s"

/-- The ranges of the bidirectional class AN. -/
def arabicNumberRanges : List (Nat × Nat) :=
  rangesOf "66gpih106ckpnp11n1u"

/-- The ranges of the bidirectional class EN. -/
def europeanNumberRanges : List (Nat × Nat) :=
  rangesOf "3gp6bnpfbeo1q"

/-- The ranges of the other bidirectional classes but L. -/
def neutralRanges : List (Nat × Nat) :=
  rangesOf
    "g2vrm1rl1rk2imigihigihlhkgkg1og2gg1cihotjlnhmoi1g7mg8hg19kgji7nhihigih5rg7kgrg10tj1fphogfmg10in
    7um1chgfrj45jp6ng29rh13vg1lpnq13mgkh9p2h60thjgikirkgpijgjjiginksim4ini1o4jgkgsgjhmhkgigigiglgsgn
    jmj3thl9rjgjfnjq4m1pi9j1nqah1cgi15i10h10ri6mk6ki9mj8pemlvm10h5t2j1piji5i10vgihk1o1ggngmi6hg5rgcl
    2l1bdr3v569h3m14ni6kgrh8h2h6ngagjth3rj2fjh505ov16s1h4hh3nn2ui4mh2brg3v4skskg77vg21qm22vg16jn17q
    1j5frs96p1s4ffhg5c1udl2lik1bjn1m1g1g2fph1m4hkgbr5mfapgbfhh10v2rl6jtujuiui2k1mk2gg3ui3ugbjl9r3dok
    1gkskdpnrlg1grl3nppn2np1tjrlhvo2o15nptjskqk3oiglvjrlpo9ii5rrg"

namespace Direction

def of (c : Char) : Direction :=
  if inRanges rightToLeftRanges c then rightToLeft
  else if inRanges arabicNumberRanges c then arabicNumber
  else if inRanges europeanNumberRanges c then europeanNumber
  else if isMark c then mark
  else if inRanges neutralRanges c then neutral
  else leftToRight

/-- Whether a text with such a character has a part that is written from right to left. -/
def isRightward : Direction → Bool
  | rightToLeft | arabicNumber => true
  | _ => false

/-- Whether the characters of a label, in their directions, show in one order only. A label has one
direction, that of its first character, and ends with a letter or a number of that direction, marks
apart. -/
def isUnambiguous (label : List Direction) : Bool :=
  let last := (label.reverse.dropWhile (· == mark)).head?
  match label.head? with
  | none => true
  | some leftToRight =>
    label.all (fun direction => !direction.isRightward) &&
      (last == some leftToRight || last == some europeanNumber)
  | some rightToLeft =>
    label.all (· != leftToRight) &&
      (last == some rightToLeft || last == some europeanNumber || last == some arabicNumber) &&
      !(label.contains europeanNumber && label.contains arabicNumber)
  | some _ => false

end Direction

end StoryScript.Text
