import StoryScript.Text.CodeRange

/-!
Texts in quotes, as they are shown in messages. What could not be seen as itself is written as an
escape: quotes, backslashes, characters without a glyph, and marks that join the character before
them.
-/

namespace StoryScript.Text

/-- The code points that are shown by their number: those of the general categories Cc, Cf, Cs, Co,
Cn, Zl, Zp and, but for the space, Zs, and those with the property Grapheme_Extend. -/
def hiddenRanges : List (Nat × Nat) :=
  rangesOf
    "g1v6g2htg25j6vphnjogig1lgehmang2nh3jhk2tigihihio1sjn1grqig2v1k1hg6mniljhij2hhig1v1s5qqit2sooi1p
    jioiiim1gg1qkigsk2hv2r3o3ogiglnlgkmrh1ugjgphjh1ngogiiliigjljhjgisjgkj1pkignjjh1ngogjgjgjjk1nlgim
    rhkgirigqgkg1ngogjgmilnigjiiujjtminjgphjh1ngogjgmiihiljhjujgkj1jqignikglijgigjijikitkigjikgkii1k
    1mlkgpgkg1og1hiiil1ikgjhjjrmrgsgkg1ogrgmijhigj1mkgjjrgktsgkg2qhigjkkgkgjjkgrj1rhjg1ji1pgqgihoojl
    omrhkr3hgjqpnu2kjgigmg1pgigrgjoihmgiorhl1v1ph1sgigigvg2l1hikihm3gpgngu2k2ujilihjh1qhli1hjugjhng
    1gg2pgikih17qglhogiglh2qglh2iglhogiglh1gg3qglh4kk1ui1rl5nhnh28hg1ti5qm1js1kijo1jtugku3lhimpgjqqi
    rlrlskrl5qmmh2jgik4np2gjlhkjjgnmii2rhmq2tj1rlsi3qhji3pgioigjnnsrlrlv5l3hplipg1uoth2hjjl3pgihkgis
    3hnjk1gi3vk2shsqisimlgngkhikch3v11nhnh2nhnhpgigigig2gh3mg1ggvhng1khkgq1g1pn3g1gjh1sgui2j3t8tj29r
    1ls1k71lh17qijk2ugikih3pmju1ooogogogogogogogo2g5v2h1rg5qrdn1p1hg2ql1hg5nj6mk2sg5vg5no3hg726ui3oo
    15t1j3gjip2hh5hhnndu1j1igkglg1qhmjrl3pn4lpt1nug2nn1qqir1vl3hgjjjhjgugsjog1qg2qljhjqkgpgihrh2hg3k
    giijhmhigi1n1ihpqnhnhnoogog3tj7mgjglirl2balr1oj3i210j16vh6r2lormkig1pgmgigjgjg28r1v1hvr1l2kg1kgl
    jmg8oj9uh2ginhnhnhkiogosjhtg1rg1kgjg1ghv2h7skkj2ui5pguii2u2u8i1ui3iv1sj2lo1vk2np1vg2mjv2p9vhrl2l
    j2lj2pn3lqtg1ggogjgsg1ggogji3lr13oo1npp1nng2rgq4knhig2tgjiih1og4pnq2v1kgjk2ii1sk1s2l3pj1lh3gulgk
    g1upqmqm4h1v2mlto3ni1uh1sk1rmlro4v4q3m3ks3km2rrrl2nn1pnjcv2gg2riihjvnnq2m2pn1nqq1l1jjl2l1t1j1ooi
    g3nuoj1vgjhir3ijjhjglt1qmro2lkio1jn2kgkq3loigpjjg1hg1lq1jg1tijjngj3uogiglg1ggsl3ggksrnjgphjh1ngo
    gjgmiigiglhjhjiiro1rrgihig2ngigjuigjiigkgj2m3pnjiig1mgigk1t3hgjligjgihihlnral3ggjllhih1s2j3knjgi
    hlqrlu1i2sgigjnjlrl1l1r1siigjjio1obo3goihi6j5krphihpgjg1pgmgjllgkor4lph2rnlgl1qip2pljjpoilji2vsi
    hqs4qmr5miiigi5n2jtrlqg2ntignp1ui2h1oimihi4qogjg2n1kiorlngjg2mjjgigimrl2tjrfl1khlo1gg2lnji1o5liu
    3js39s6l7ggmqcla4r6ks43h1gn1of9sk24o1abo1vrkir6cl23qm2ggrj5igrl1vmip3hm1gprgog1mk1k1av3rcl5sk1qh
    1q2r4sk3pqu3vltmo1cdn2o2h6g7k21fslgogjg12kui1skhitln18t90j6skuiqmrhihif5vfui1bll1ou1i5u7l3rfnp2o
    h3tkk1ljm1vj3u1k4jii7p1lr1lr5oo1q8m5mg4ogjhihjhlgtgigog4iglhpgog1tglgmgiiog15lh12lh23j3ml3hpgvgo
    47j2gln10k3v9h2upohrjj13v1v1h2tjrki1cv1tjrdl1vhsjibv2ggkgjgohmojdvoglgjg1ggcmhq2v4lmijrjj31g4l4r
    3uchlg1sgjgihigrglgigilijigigigkgjgihigigigigigjgihlgoglglgigrg1ikkgmg1i3jj10t2tj6lr1gh1gg1gg2mp
    av3n1us2tjqmjtn9p3dqi1iiuidrltjiutj3pnrl2pn1vhtjjtq2m15pnvhuisi3qgij1hhtjrm9kg6o40ka6eh1v111vh
    168vh1d3iu26v9ah21v5eh134sk212rdcb8l"

def quotedChar (c : Char) : String :=
  match c with
  | '\x00' => "\\0"
  | '\t' => "\\t"
  | '\n' => "\\n"
  | '\r' => "\\r"
  | '"' => "\\\""
  | '\\' => "\\\\"
  | c => if inRanges hiddenRanges c then "\\u\x7b" ++ hexText c.toNat ++ "\x7d" else c.toString

/-- A text in quotes. -/
def quoted (text : String) : String :=
  text.toList.foldl (fun written c => written ++ quotedChar c) "\"" ++ "\""

end StoryScript.Text
