import StoryScript.Text.CodeRange

/-!
The characters of domain names: those that stand for themselves, those that are left out, and those
that stand for others, as capital letters for small ones. No other character occurs in a name.
-/

namespace StoryScript.Domain

open Text

/-- The code points that stand for themselves. -/
def validRanges : List (Nat × Nat) :=
  rangesOf (spelledOut
    "g4g1r2k2imigihB3lhkgkg1ogo2giS1Z1kgihE9EhjOzZ1jF7C3khlB5ijgjFlhCnBbiimrgiH1CriMhlgkgiZ1Z1mjgjhi
    glFf6gq1unhm5qjgkoi1viEpki1jg1s2ipgiU1kgjA5jh3k2vCzZ1oXtZ1jJdhJzZ1Z1Z12q2tiijii3mp1qll1i1li5nl6j
    i2vj3qj6kvA53gjui1rjgiqm1vo4qi7kp2jinjhj1limigkjjoAcjpgpjj1ojiillFrjgApgikAgikgrgq1griioiiiCvhik
    jpiA0jg1gjjromAbnjhjGtoAcioiokj1hrhilkiijkhigihkhkikrlkBhjgngv1kmsiii1mivjoiAlohA5hjjjpo1lDppik
    FrmiiApiitsAf3iA0llvj1pA81hk1nioigjmkglliginnpjit3himl1s2mhAiki1nA6ripjkA7miplh2hri3lijF1Atilhig
    mmi1gLmiuis2m9v3h2ri6hjenijjmigA52oB4gGfui3Bh4ij1vk1pn5lr27vi1rk5oo1lq1nq1jtsiiiht3jj2njpnpnqmpn
    Av2qm4lr1uirlrlgk2pjks2rl1Awk3tj4gi1sjqnpntj2tjr1l4sialp3rkuk3irg3mnp2qm2rkgsg1jg1tsi2h2m3vigE1
    Z1Z1Z1Z1Z1kjhKvZ1Z1Z1oplrnpnE5Kr3khlg1ggqikhpiijvg1mhjgikirkgpijgjjiginksim4ini1ov2g1kgkgsgjhmhk
    giC1lAfnjml3hiikihl9rjgjfnjfu1nqah52gi6mk6ki9mj8p3h2vigkhigB1lgihilmgiJ1Z1Z1Z1nA3jigm2sA4gj3npgv
    1nqmiL17t2j1piji5i10vgi3iigkki5ljhjhi5un2q6hhv4lrv4pn3gg18h708sk3mq15r1mgiL1Z11iZuj5pp2hKjiEzZ1
    Z1nB5jFdjA3hA3iigP1mgmMhlA3jMj1rhj3ikpn3np4lprn7js1tk4tiql2gi3mqtjpj6m1p1rrljA1qmimi2rloih5l2Atn
    2bajt1ml3g221jhigihrgB5jiflg9k2g16s1h4hh3nn2ui2hv1mh2tg18tri1pi1iihiujt2j7qmil2sk5niskg3g2t8j1sk
    3g1g1rl2jq1tm2qm1ti2klt5j7ljp2v2jl2np3jsg2oqiuimihk3jt13mq1lrn1pg8gljgi2rAogj1mi4npo3h1iihm2gk1q
    m1q2n3nl1jj3hAkniii1sjilpooo3v2h2mlrq3lkAk1qm1pojtm5h4o7o3io2tppnv1q1sphdh1ui2piijh1hlpo2iAt2p1n
    1p2n1r1l1mq4tl2jq3tiku1oopn3ki1hp2mq5vi1js1hi2u3vmigijiuiqn3qmpnjinjhj1limihikipAcijgngmmjmkkspi
    gjgi2liD8jA7hph1u5rik1v4nppan3lj2l2j4kspns1k3pnpn1j1t1qjul1mbq3r8l3itnjgjnihi1tihjrqp4nnj2tjq1s4
    np5iu4oop5nn5p2hvpnoi2sitr1sk1vj1lit4qmihi2rkgA6oppnlBekA4lopn2rlpfn1oo1gi2ok1s5mg1g3hu39q6n6uik
    scja4t6iu42v1h1lrf9qm24m1abq3p6cn23oo1uipl5gipn1tjlr4lrpimi1km1i1bh3pen3q2h1o2t4ql3oo1g4hksmq1cd
    l2q1v6i7i21fujimihi12i1gg1uijgvjp18r90l6qmskoopjjf6hdl2lik1bjn1m1gB12tj1mq7j3tflr2mj3kotp3vn2p1m
    4l7r1jtA25mq1o48o28r1gkiu45h1unldmmi1gjmihik6lg7h2sktjplh14Av1i3pmg1dh2pdn2qlgcAki1lphehmijihiui
    ckjv4s2plplh31i4j4t3s1bjh10v2rl6jtujuiui2k1mk2gg2h1pk2ii1s3p1p6hl9r3dok1gkskdpnrlg1grl3nppn2np1t
    jrlhvo2o15nptjskqk3oiglvAnpo9ii5rrg40ma6dv2h111tj168A4d3g1g26t11aj134qm212p")

/-- The code points that are left out. -/
def ignoredRanges : List (Nat × Nat) :=
  rangesOf
    "atg2aige1gh65kh5mk7fsg5lkml10flgcc9svfggahgbd0gj14dgnc2f8mev"

/-- Code points of a range that are as far from what they stand for as one another. -/
structure CodeShift where
  first : Nat
  last : Nat
  /-- The distance between the code points of the range. -/
  stride : Nat
  /-- What the first one stands for. -/
  image : Nat

/-- Shifts from numbers: their ranges as those of sets, each with its stride and its image. -/
def shiftsAfter (last : Nat) : List Nat → List CodeShift
  | distance :: extent :: stride :: image :: rest =>
    let first := last + distance
    ⟨first, first + extent, stride, image⟩ :: shiftsAfter (first + extent) rest
  | _ => []

def shifts : List CodeShift :=
  shiftsAfter 0 (numbersOf (spelledOut
    "4h1ph6h5ohh3it1mhegimhfo2i2ui10hmii13ljkA5qkmi14ij2sA6rBi7qlAu8jlhh25m1mAiahtAc8qhAobk1oui1cuj1
    gi1dvq2mi1fpkAd22j1koi24nfihh30g2vii37h1mih3atkAjcti1gh3bhioAcj2tAr3dpvAw7rhvh45gh1A63g3h2gi46hq
    3ki48rjsi4cij5ui4dhj2lh56hb4qA82d0g33jlh13fg88mhh44hs2qh10dgjiA6ft6vii6ijnh6nAv7kjhh25gA56kiBaro
    hh1d1miBslih3bA9h3cmjAglhhBgiCg3qih26oojh27Bi28D5pC5riAt9g4i9ki1e0hs5uA7ahqnh1f0gplA61grBd2gpB63
    Dk4gsmi1f5hCk6g4phA7bg1vB7dgC6eg8rlh3kkhh2oiph3gC9ojh6rihh7j6uhh6noii6skih7g1hAfijA4lkjh5dgBvkBk
    p2kA5jvB41arhh300o13moh3h4u1ph6hhC571n2vh2c3g3oki2c6o1jhh23vh6iAe8hpB6es34shh534kfnhh110gjB6ashi
    BdjhlA6bgiCdmipB6A4kA76AyA6AbB6cnpCdtCk2ijkB6rmBdfhhiA65nhBd8kCy9hdCs0iCs0liCdrhkB6u6nhh30aqvlA6
    cqlkA6dujBdeohjB6v734i2sia64h1k1qA88h8oAg72jk3B73jriA67qjoB6vqBd9hk1C7nsuA6bllBdcojuB6t39m4vh13a
    g4e9jhh798tcvhh5djhiA5r5nhh68m2hA6bqlA5cgpA5di26jhh3qB401m1thh2oDckhC6gC60qD6ohjB6s1lhh2ojCxkjAb
    qnA4k1mhh62hhB5iC5jC5kC5ljB5mCbnCboCbpCbqC5rC5sC5tC5uCzvB53gC5hC5ijB5jC5kC5lC5mC5nC5oC5pnA54hjB5
    iC5jC5kC5lC5mC5nhB5oC5p1g1vh2hh1ph6hh2jh5rhA798lihh300s1C7aqvlA6cqlkA6dujBdeojBr9pAy110gjB6ashi
    BdjhlA6bgiCdmipB6pkBk6hjC6nD6tjBy7jkhhaiojh219g41k2nh1042o8p2jB9do9tqA859niuB7ajimB7bjihC7r1eshh
    2dgpA55mtA5aqBb7mkB5tqBhhiih1cg4co3A80ccg9u1lA9d7gb3r1vh118cg558hBb6e6g4h1oB9br5e1u1ph6hhph3g70n
    DcJ5mA4i1hh6pKmii6hnAlqjjh6uinh7jhjAoiAomhlh6piqh7gh1pAkE5hBvjh6kjnh6qimh7jiMpikh6pmIpM5Z5Z5l1gh
    3bhimh3cjiJcoQpZpZpZpsph3ghQ483hoh4AciA5qhqA5uihh44toDnhCnhCnlAnjhBtq89q2hh1e92i4dvhh62npjh64jo
    Bbq1kJclii64k1tB6jpCjqB5njA54nmihAuoCn1lIc27q1ph6haanph3gfc3ghh530l5nA7deh7jhh6bbq4vhh771uaihh92
    dn"))

/-- The other code points that stand for one each, and what they stand for. -/
def singles : List (Nat × Nat) :=
  (codesOf (rangesOf (spelledOut
      "aggqgrgkhbugngiglhkgjjihiikhignA3jgihoAl3oA82pg1qhihAki6ro2ok5vgig2B4ohnhlg4jn1qiihigihcmga4s
      g1brgmBzb8kijkajhkhqjjhA1gjgikA5jmhlg1gg2jokmlgjC1kgdsA6dAzI13thjgqjognhA3ijgpjlqng1ug3gg1hhp
      Airikllg6oglglmqhngiB1hkgjilgjklg1rgkgAagjhE7Af36ng77mgiipjiAhnh7lg7tg13gg5kgtdl2rgig3kA4frhsg
      kg2lnjgjhmkogjiktalj1pgmgotjgi3g2gjjtnjmh73aohdjgtgugig1tkij1hilg1hg1lkjh36jjqg4d9n10tjAyjpiB5
      hk2nj1pj6p4nhmi2n2sj1vjjjnjg2ipir1jj21hhkh1rjjhvhlkjkjhA1jigjg1AgA1jE1rhjJ1lJdni6tgj1gjtnjmhnh
      mhsgkg2ugiiiglh79liijjrjnjijmigjgkhccelA8akg15uh1kgog1igom1iG9Z9o87sgjmugpmd9lhiklmjoihigjgigl
      kC7A1nglBfhEpE1CdiklCjjigkhjjlmjkmiikB727ghdmgu2r1lh105av2oj5lj7hj4tjagj3j"))).zip
    (numbersOf (spelledOut
      "2g6h3bs3h6vfv7j25A2k18o18s1dt25p25r19i26g26j26p26o19A5v27i27l28g1ao28j1at28o1bg29i1bp1bt1fl19
      l1bv19u2c6l23s19qA9m24i18g28p28s6o26m6q7i27p27r28h7nA96j6s7j7o29l31j3bp2bp37n3r3fj3asbn3cs3dn3
      bi3bo3cl3ct3cr3cm3cg3bq3ch3cjBqbl3foBbfr4cvf0r2d2nA3t10ds43i43k43u44i44q46ja64r1c8q6hem6l1dt6v
      22j7g7i7n6h1d0i6i25p6n6r6t14rAu5k7g1d1t26v7m1d2l6p7i3ch43t25i6j25lfg25s6m25v26h26l1d7r29t26t1d
      8l29v27h27g27o1ar1d1s7q3bo1e6hdv3as3at3au3av3cs3ct3cu1f7gBobpA9iAvA6kBz9gA9m3av3bB9q3cAqel6Bco
      3csA6s3cu2gS101C73g6p2r221i3t6uG9h6l6v7o25p6o7g6j25r6oB112n6pA1s7iA1q3cp7q6rel6l214u6t6v6p3cg3
      bjA2A8221h6k6p7m7o6s6tH9218k3g2c6h26r1d7t2A25h27h25g25i2c7jA3m6q7m2cfj2d6h6bct9f9v4e0g4e2o4e3m
      A3Af5p4e8lA3s4eaArbq513v516lA3r518i519m51aAbeg51fl520g529r52fp531lA3q533o534h535s536An8i53bm53
      cAnej56dn571v58er590iA3q591l592n597j5b5g5b8A3fo5c0v5c2i5c3Ab6u5c7h5ddr5del5dfhA3u5e7iA3qA3v5ef
      k5eAjf0r5f1j5f5g5f6h5f7Abcj620o623m624r652v653k658n659A3aAbbp65egA3l66fg670o672o6b2g6b6i6b7p6b
      bj6bcr6bdkA3r6c0v6c1k6c3k706r722q723mA3rA3v724n725pA3Afas738kA3p74ds74em751oA3v752A73g758r759i
      767mA3t76au76bv76eu77dr77ei77fj793q79boA3u7a7k7acr7afp7c7j7cfo7f3m7f5h7f8q7fbt800hA3s801i803j8
      07v808p81ejA3q81fjA3s820A31rA3v826u827iA3o864t866r884gA3s886j897u898r89di8a0g8c3n8c4m8c5l8c7o8
      c9t8d6k8d7g8dbj8ear8ecq8f9r8fbgA3l909h914p91cmA3s91dh957n958g961s96bmA3p96eo975hA3u976iA3p97cr
      97et97fj980h98ao98drA3v999mA3p99as9aAnadA3Anb2lA3A73iA3s9b5q9cel9e7B3v9eaA7br9ecjA3t9edh9efpA3
      t9f0u9f1j9f2g9f3r9f4q9f5i9f8Ar9s9fag2g2u301i534h11aq110i111A72AfcsA3u11djA3nA3pArsA7tA3vAzgA3n
      A3An3iA3m114gA3nA3s118o119kA3u11ah4e0g4e8sA7p56drA7q4e2tA7r753i4e5p4e1pAfh592p573g4ebq554v5e7s
      658n7b8v110gA3pac0gb09ob2ekb77sb9cobc1kc0asc54kc79gcc2oce7kd0cgd30sd55oc6bg4e0A38sA7p56dr4e9k5
      16tAfjA7Af5t534h670o706r6c3k672o91dh571v65el682qAvp793u540t727p8cah795t52bk79do753n597j906p512
      q537g6ceo980l4f1h519p6b6j4e0q4e2tA7r5dem53fj533r5b9n5b6m76ej4f0h8ccn535k591s30aiA3kA3mA3oA3tA3
      v30bhA3jA3lA3nA3pA3rA3tA3AvchA3kA3mA3o30diA3lA3Bbr30ekA3m44q44sa76v1d7pa78s26l26m25A8h26A5q29u
      28n29tab5ja79k28i1d8u26k19r7j6j6m7ha7fm12n1By2nab3n26rab5i28t8c4o66fk8ecq8cco6edh4e3i53el9f9s
      B3595h91dh558n594o61fm766p7f8l863v87bq88fo908v6a0i6d1r70dp73du843t916q99fh4e8i537l6b0k721r862t
      9e1u5d5g6fer85ct896k62cp81do881v5ecq671n6d6q72fs90cu4f8m51bn52du64ck6adj721g76en800h860m865s8d
      ev973i9b6v9dfq788s797v7dag83cp930k9e7v8adm58dv5f0k7c6g807u726i78cq8cci96fnAvo5c6i6a1j6ddq6f0v7
      d2v7e3n964r52di808r51ds51cs7a1s7dbu83fh967l8b8g62cv6a0i8afu4e3p5ben601i738n757g531n78fr4fbv5fa
      p4e0t6ccs657o7d2i53cj585u770h844p8aaq6bbq8fbg6c8o62fu82el63ag756l4eau516p51cp688h7cen826v8adi9
      1cv52fl544i597j5ees65cl6ffu792q95at9a6q9e9n9ecu529r66cm6b7n8f6i5e7k619g620g649q6f2j714p748p79c
      q7dfk806v8f2m84eu902j934q521n52aj54bt70co88ci8aaq5ecp5ffl637r6bau7c3u737l4eek56fp5ben5dbq601s7
      3bi746p7f9q804m923k96fm974o981o4f8r79au91bAnbo60eh4e8m50dq5beu5c3v659p6a0i71cu764i84fs907s9f8t
      668o962u528p677r67fj6d4h6e9s740p755p786r7d1g985u516t622u967o502r5d1p6deq8f2q5f8r614k681n738n96
      8m522p540v5c6l661j674u68ao6cel740m75ei7f7p88cv88eh91cs96ei533v6ebq541t71dg749o85fq96aj9c5n9e9v
      679n6dcr81eo7acr7b2g7c9i72cg709p8b5o4ecg833m523q520n5eam62dj7cdm5b8l6d1u66bk8f3r884s964t898r5e
      dj514g55cg585q667k51du732q76cq793s795u796l798v975m7cbu7fbt861i8afo903A3ft98ev98fs992o9dbk90du9
      6bn4fau50en514t52cp52ek535h559t560m566o584g58ao5c6kA3u609k616o618u61fi654v65ei669h688l6d7n6e1q
      6f2i716u722r74Ab89h793u794pA3o795gA3mA3t7a4g7a8h7bcg7dfk7e0p7e4h7f7i800l81et827pC345n891g899m8
      b0h8b3p8cdj8d0o8fbm903o96ej97fv983r607l242eu821o4e2m51bl516o4f8g514AbA72cn52fq559t555lA7p55ei5
      85q58bj594k595k5a6i5b2o5ediA3p5f6A3at60do614u610A78A76g61fi623k63ck641s645i655m667k671nA3r67Af
      b7p6bbq6d4h6edr6ecr6f2i701u716u77an723l72av732q747h750m753r761tA3v76cq76dAffk774qA3g78cs7abh7b
      cg7c7r7d5A3Avf3u800l835i83ev877p894h898m899m8abv8afo8acr8b0hAbu8aet8b3p8b8q8d0o8f3o907i919p927
      m967s96ej975m97dr97fv980r983r9b1i9f9s2284qB4k233dl3b9t401o403p2524A4cdg27edj9f4A38u5ei5dg5eo5e
      q2r67hC2rI2uH28gH27qI2vI2pH2akI2mH28kI2jI2mF2nF2tC2sC2uC2oB29D2hB2apI2vH2bjI2hI2q6brE2cg6chE2b
      uH2di6dj6atH2cnC2mC2oC2rC2lC2pB2dgH24pB2csG22s300h2h3v201kA3j5v5v7r7t5r5t5vB1Dz3r3q3v2hAzkBv2j
      2m2t3s3u3t5s4g62mC2oC2qC2rC2sC2tC2uB23jC2kC2lC2mC2nC2oC2pC2qE24hF2iC2jC2kC2lC2mC2nC2qD22u300h3
      0frA3i30ahA3jA3lA3nA3p30ejA3lA3AfcAbfsAniA3kA3mA3oA3tA3v30bhA3jA3lA3nA3pA3rA3tA3AvchA3kA3mA3o3
      0diA3lA3Bbr30ekA3mA3v30fj11aq110i111A72hasamal20ap250i25ag25crem29Agj2ajab6m2Axak1d9h25o25u2ap
      26k26i26g29r12n29s26n28Aks1df0ka78u26uBbl28C7mfo7h27qBbo28g2ao2amab6n2an28o2cAu8v29oBxqA41u6k6
      n6v13h23n3bo220n3cjA6i3blAg3bq3cm3ch3cgOvZvZvZvZvdtA244ra68p4dp45m45o4ep4av4cv44h49hCkl45v4ara
      65h4bh62s62v64o63i62t63n64q63j63p64h63l64i63A8k62u63g63m63o63q66u6bq6ah66v62o62s64n62t64q63j63
      p64h63l64i63k62u63m63q62sJzQwbq66v62o62s64n62t63n64q64Atj63p64h63l64i63k62u63Ano63q66u6ah62s62
      v63i62t63n64q63j63p64h63l64i63A8k62u63g63m63o63q62o62s62v64Aei62t63n64q63j63p64h63l64i63A8k62u
      63g63m63o63q6j7i30bl624r5b5n53cs30cn4e8s591q89ej592p4eak662g712h659p524t5fAz18t65bg521t7d4i751
      v8cap58fg543p6f1k629l635l4e0gA3p904q5dem4e2t53fj630n8d7g625j798h7a7q540o6e8g670pA3o753j527i55b
      m914t5f9n53ev4e3tA3o4e4h2012i4f6g4fau4fbr500i507q509p50en50cv349u2063q514t515k516A37n2051s34bp
      Agn518tAg4r519Acak4ecsA7A3bl291dv51fl520j34Ab23r524m527iA3n351ArcnA3p52ek52fq531n534p535hA3Af7
      jA3tA3vF320a2s707g53cAwdAgb6j53er53fh540m549u543o544A36A3ai54fm551g555j556A38kD39p55ar55bAjci5
      71m560mA7n565h567k520n58eu57cA3fk580t578r583iA3h58as214eAofiA3n590m591q592i596i216aoA4eAhes5a1
      r5a2n59do5a6m36eu36fs5b0o5b3uB3219cAccj5bdA7en5bfj21b1oA8v5c0m5f5j5c2i378h5c6gA3u5ccA78t21dek5
      d4jB8m5d6uA3r5d7s382v5dft5e2o5e3A76p386i2218j387s5ebgA3jA3m5ecq2a39i5efu2233hC4820h5f2iB338cn2
      32bo261dq5f6iA3r38ej5f9Afct5fdn5ffp608h393q391s609k226dk60cn614oA3sA3uD77q618Abbi61akA3v61dAff
      iA3m621gA3r625t62bh62dk635g22b0s633AkfA76o638j63ekAofh642i63cl63ap3a2u646p647A79tA7n3a6s654v65
      6s2300q65ej66fo664p3b1p669h3b0o3aek519iA3l670gAns80at43dp671nA3r672h675uA3j233cj3b4Asfq678l685
      i688l2346tA8u681v691k3b9t694i69aj69eq6aao236Acadr3c1o6b2h238an6b5k3c4u6b7i6b9v23a8t21d0rA9fq6
      Aq23cbs6cbv6cct6c6n6d1m6d3u6d7Ab4h6d6pAbo6d8l23d1uAsk6e2v6e6u3d3j6ecrA3n23edh6dfp6f6u23f5B48u6
      fcm703p701uA3r3d9Af4q707tA3n70at2052l714l2426j719s243ar722o723l725g2460Ac8g729l2473A481k737q73
      8r3eas73al3eboB3744n745s747h748l74cq3f1r752k24c3m753uA89i757g2219v761g24fahA4bo2504k3ffs400o76
      fkAgfjB4i2511pA43j771v774q403p778r404m409m2541t784u788s78cs40ej2562m795mA89qA4cl798v79er412v7a
      4gA3qA3v2597s25aanC47aeu420i25bar7bcmA3p422Atc8g7cdi42aA7eoA3j7d0g25f8m7d6j430h7dcn7e0i7e4l433
      k2622oA44n435pA8dp7f7q2633u7f9l7ffq800l264dAl52j806gA8ao807g2335v43dl80bi810j440r813u5abl267an
      A4A9339jB4s820hA3k8f9u446r829Af8B7t52bj82bh8D7t82em26b3sA8l831t836j83aA72A7bA7en845n835AfcqA3s
      83ds26c3m26d6rA9dl452r84fhA3j851m273cq856k26f2s455t456hAcbh270diAdr865gA3s866nA3p86aA38o870u86
      ei877p872Af6r878m45dn87eh880h45fp886gA3j2766n88dB3u463l88fq34br278au2796m46bApcn8aag8aet8b8q8c
      5l27cao8car8cch8d1r8d7n27f2v2080k8dcAhbs8dfgAgdu8edk8f3o285diA4et909k90fh911h2872uA8r923o927s9
      3fp941l28bfq958r499l95bn28d7n49em96cj5dbi972j2914l2921q4a6u4a7m97eg2940AgbiA89m980rD32p295bAge
      i4b3j992p99an99ci99fu4bcu29b3g9b1i9c4g9cft4ccu4cet9d6n2a0Bcfo2a10l2a20uA49h9ebr4d5m9efpA3u9f0l
      A3v9f1m9f3r2a60g"))

/-- The code points that stand for several, and what they stand for. -/
def expansions : List (Nat × List Nat) :=
  (codesOf (rangesOf
      "aognglgkgki7igihshpg7ro2liell6ng3mgqh20igeuj2egn7thig5kgjg2jijgfuh2dmg8gg2ph6mgqglglglgtgqgik
      og1igqglglglgtgeehgem2vjijglhiljgljuiuhkijgli1pg1shihlgigpiug5hg5ohigihjgtgqi1pg1lviiijihmiiji
      hugajhih23p1u1l1p55ng6oi6mg5bvhjg6gg10h1ui2jtv1th3k1u3gciijivi2mc70hmtkmgigrsikigihihip8ugt1hl
      13t1j3vj3l2ps4tj2kiigip7mnengd17rm5nl1f4hpm1qjh1sl1ri2kg7gh3vo")).zip (itemsOf (spelledOut
      "2g30o,B5kC5hB52n,3h204k3kF8i,3jEh6p30nA56qE4sbnD42bs6u,6k17M5s6qJ4uL4k7J42g30mC5nC5Ch2oCbjC5r
      ,30o30hBcbpAiDbEk56l58i,62n67k,64oC6cEdqB691l93sA6mD6nD6sC62hD6iD6rD6vC6ah9bB6iD6vB6a3ia3B6oC6
      1mD6nD6sC62rB6b2hbC6iB6e4te3i,ectebA6are9pC6ah,f4ifbnA6sC65hD6mD6rDrgfbl,f7hf7iD6k,fbif8gB6Ag
      D9jE6EgF69ifbnA6sC6ahD6mD6rDrgfbl,6h2bu,1f0g3bpB7hE7iE7jE7kE7lE7mE7nE7gE7hE7iE7jE7kE7lE7mE7nD7
      2gE7hE7iE7jE7kE7lE7mE7nE7gE7hE7iE7jE7kE7lE7mE7nD76gE7hE7iE7jE7kE7lE7mE7nE7gE7hE7iE7jE7kE7lE7m
      E7nD77gB73bhC6asDlbmIl2g31jH54iB50oB81f7kBy3bnC6auA6AlcmIl2g31j30gF8hE84iC8kFqkFqkEq0oAqD8Bq1f
      7s3bp,3cpD6uA6AlfmIl2g30hB51kB53j,203iB3C8JclB3C8Hch2h,2g30l,3v3vA4BfhA9AuiJ3,7i7j,6h2v6D6Adbg
      BbjAivC67lBim,6uAg7j6t,7k6l6sA6Ab6m6h7o,3h204k3nF8pF8h3gFaj,3iD8FhlAhF8jF8kD8Fzm,3lD8Fho,3jF8l
      F8nD8Ez,6p6pA4E67m,7m6pC4C6Hpo,7oBioCgC4Hsm,7m6pC4C6Hpo,7oBioCg3g204k3j,222rB3C8JcuB3C8Gc3h3g
      B4hB4iB4jB4kB4lB4mB4nB4oB4p,3i3g,2o3h2pB6iD6jD6kD6lD6mD6nD6oD6pD6h3gF8hF8iF8jF8kF8lF8mF8nF8oF8
      pD8i3gC86hD6iD6jD6kD6lD6mD6nD6oD6pD6qD6rD6sD6tD6uD6vC67gD6hD6iD6jD6kD6lD6mD6nD6oD6pD6qB622rJ3,
      3qA1t,3tC4C62adt33o,2g309pD6q,308oA3B8bj30cAvo110g2pD8iF8jF8lF8mF8nF8pF8rF8sF8uF8vE81gF8hF8iC8
      ac0Dqb09oD82ekD877sD89cEqc1Dqc0asD854Eh79gD8c2oD8e7Dqd0cgD830sD855Ez8fsD862kc80kGcd6cDc4e0gE88
      sFhpC856drEh9kDh16tFzjFhFz5tDh34hC8670oC870Ez6c3kEq2Dq91dhC8571vDq5elD882qD870pC8793uC8540tDh2
      7Dq8cahEz5tDz2bkC84eejDh47sD8b6mC876Eq4f0hC88ccnDz35kDz96tEz1Ez1eqE8fjA87g7k6l,3i3hB4iB4jB4kB4
      ComB4nB4oB4p,3j3gB4hB4iB4jB4kB4l,cc3oaceg,c8fsc75oBmmB4nB4Cep,3k3gB4hB4iB4jB4kB4lB4mB4nB4oB4p,
      3l3g,3h670AgiD6jD6kD6lD6mD6nD6oD6pD6h3gF8hF8iC86o6n,6l7iD6m,6s7k6k,4eek548s,30ai30dh30fs30coEg
      erAklAbhEgfjAgqBbFgs30erBck30crDxbgCgDcchBcmA3pBgBcoAypA7vAgsAxpCkDcarB7BgqA8j30bpCcDteg,Dyak
      AcqEcep30cjA3oFgtBt30fsBgsDgfjCcB830duBcuBgE8crApCct30elA3qAgFterAxgJxtF8A3bgA7pA3gIkeh30fs30c
      oAbrJovAkjBoAkbgAgpA3gKcBt30fjAkavAgrAssAbkAbtFktAxAkcBgbhDcbpBcjAtrApqCcDpdtBcl30akA3vBxEgfAx
      chA7sAkgBknA8qDobCgrDcchJco,A4gAcsAkpBcnA8nB8p30er,BzAujB8qA3u,B4A3jBpBcv30akA7kAcdh30fs30brA7
      CxGkFxgDceB3rBgk30ai30bpAxoJkvIcbjB8jFhlAuhAcp30cjA3pFkAcfsAgoBgmDtbnAoA3erBklA8p30fjBcoApvAxv
      AgsFxqAgtE8crA7iBcoBuAgkEpfj30bpFcsAcoBcpEcvBct30akAgj30cCtAperFcrBpB8tEypFls30erGcBtBcu30akA3
      vAttIgerEccjA3vCcBlAtFcfApbnAknBbBkvBtAgtIgeqG8A7gApsAbr,A4h30asF8AlcoAtjEgfEgerBgkEgpGcFpm30a
      iAgjBcqAyjA3oBtEgep,Bd30dk30fsCcB8AgmBbBgsA3gE8fj30co30biBbBkvAgCk,3g70bp,3hD6iD6jD6kD6lD6mD6n
      D6oD6pD6h3gF8hF8iF8jF8kF8lF8mF8nF8oF8pD8i3gF8hF8iF8jF8kC86o7g6h,6kB4h7l,6iA6i,6v7m,AqjBqtC43i
      D6Aip7l,5e7j621g,662t548s,592n6b6jAh0u6cbr,682q5f0v4f1q793u,7g6h,6uA43bsBatB4rD4iAeB4nB4j6h6s
      AlE87g6m,6uA43bsE5n,6tB4rB4o7qA9D6tD6nC67kC63bs6sAqB4kB4rB4m6t,6u6tBuBatB4jB4rEe3iAgC6D4rBbDpj
      ApC6D4rEb221l7H83i,7g6hAvD6tD6nC67i6h6kE6221l7jKc3i,7gAj6uA43bsBat7jBkmBkmBkBatB4rE9BunBunBuBa
      tB4rH93cpAaC5i7h,6j6jB4kA4221l6r6n,6k6i,6n7Azo6hA47g,6p6u,AtrB4tA47k,6s6tB4uB4v6nA67o,6t6iB4p6
      sB6vA67g6oA4A6tB6i,7jD4m,7n6A9m221lAs6hE83h65el,3iD6jD6kD6lD6mD6nD6oD6pD6h3gF8hF8iF8jF8kF8lF8m
      F8nF8oF8pD8i3gF8hF8iF8jF8kF8lF8mF8nF8oF8pD8j3gF8hC86n6h6s,6m6mB4pA4CeEbCd7j7kD457k57mC66lD6rA6
      uGkt,5dp5bk,5fi5bn,5ep5chD6iC6bsAgE9Cjdg5bnD6oD6sA6hD6iD6jD6kD6lD6mD6oD6pD6qD6rD6sD6uC6egD6hD6
      jD6kD6mD6nD6oD6pD6qC6dl5bpA6h5bvA6rC6ekDdg5ds,6cn67k,62m62nJ6dlJ64oJ6cnK6mK6oJ6dgQ64pQ62sD6tDk
      lKyqA6oAyD6tD6uC64lD6pD6qA6q62sD6tD6uC64lD6pD6qA6r62sB6DrrDrrDrs62tB6DrtA9B6DduDduDyuCk3jAkD6t
      D6uB6DrlDklDdm62sD6tD6uB6DrnDknDdoD6p62sB6DdqDdqCd4hAdD6tD6uB6Fr4pD6qA6iDyiDriDriDrj62nD6sD6t
      D6uC64kD6lD6pD6q,Ao62sD6tD6uC64lD6pD6q,Ah62sD6tD6uB6A2D6pD6qA6m62sD6tD6uB6AuD6pD6qA6n62sB6Drn
      DrnDrqArD6tD6uC64lD6pD6q,63g67gA6hB6AoB62g64s65hC8tF8uF8vE85gF8h67g,62m63hD6iC64lD6mD6pD6qA6o6
      3hD6iC64lD6mD6pD6qA6q63hD6iC64lD6mD6pD6qA6r63hD6iC64lD6mD6pD6q,64hAdB6DdiDdiDdj62nC64kD6lB6Dyj
      DykDkkDkkDkl62nB6Drm63hD6iB6EkA2D6pD6q,Aa67g,Aa63hD6iC64lD6mD6pD6q,62m62sD6tD6uC64lD6nA6oDyoDy
      oDyoDyoDyqDyqDyqDyqDyqDyrDdsDysDdtA9B6DduDduCd3jAdD6tD6uB6DrlDklDklDkm62sB6DrmDrmDrnDkoDdp62s
      B6DdqDdqCd4hAdD6tD6uB6DriDkiDdj62sD6tD6uC64kB6DykDykDykDykFr4n,AaDylDylDylDymDrmDrmDrmFr4n,A3
      DynAkC67gA6qAkD6tD6uB6AyD6n,62mAdB6DdoDdoDdqDdqDdrDdrCd3jAdB6DdkDdkCd4AkkA6CyAaD6mE6DyqDdqDdg6
      4u65hD9vF95gC93n64pD6qA6pDdpDdqDdqDdjDdjDdkDdkCd2tAdB6DdsDdsDduDduCd3lAdB6DdmDdmDdk62sD6tD6uC6
      4lC63hA6jD6lD6mD6n64pD6qA6pDdpDdqDdqDdjDdjDdkDdkCd2tAdB6DdsDdsDduDduCd3lAdB6DdmDdmDdk62sD6tD6u
      C64lC63hA6jD6lD6mA6Cr2sD6tD6uC64lA6j64nBdD6nFk2sD6tD6uByDkkDkkDkn64lA6oC62AdrH6q62sAnD9tAcO9Gt
      uE9A6AtG9tG9u,AnDjK9tB94qG9p,63jAcAzD9sAcE9Ft4lAjQ9sE9A2K9AqtA2L9GtkAjQ9s64qB9Ag62uO9A2K9m62t6
      4pD9uAjK9nA6AwO9It4qA9p62sDjpAtT9pA9qDjG9qB9Ft4h62uAtK9iBt2tE9DjkAgJ9qG9pD9sA2N9u64lL9A662tI9
      D662sE9A5G9qD9sAcE9GtuAcE9GjsAcA9nDcE9Dtm62tJ9pD9sAjO9EtAg64qE9DjqC9lJ92o62uAfA9q62sJ9pB9JtuFj
      4lAjE9DjsDjC92tEjFt3j62uD9lCtqA9kG9mF94AjsF94lD9qGtqGtqGtlG9iG9m62tHjAcA9kCjl,63pAjDtjG9m62sAw
      ,Bg2uDjkAjAfA9jAmA9KjmB92t,D664q,A6AtB9AxG9hAcDtoAwDjjCjl,63p62sD9lGjj62u64q,64mCtqDtk6diAjiF9
      2nA9C2nDcj62o63hAzl62tC5v,63lBz3pAf,At63j64oAi,AjBp4q64n,AjApCflAplC9pH92g62nAaC2nAd3pCaqDd4o6
      3jCgl,62sA92gD762nCnn,63h6csDf,2g30lS564r,64B6CcsC5tC5uDouCcvDcvBc5gAcB6CchDchCciAcE6k62L6jK6l
      K6nF62g30k,1d15nA46lCaoNaB4uMfvLf7gMfhMfiBfbpCfCaqCaIlB4uDqHfMvvDvIf3g2s,3hB4iB4jB4kB4lB4mB4n
      B4oB4pA42o6h2pB6iD6jD6kD6lD6mD6nD6oD6pD6qD6rD6sD6tD6uD6vC67gD6hD6iD6jD6kD6lD6mD6nD6oD6pD6qA630
      1k7jA5l,6j6k,7n7q,6o7m,6tA47Cjj7j,7g7gBgn6jAqD4kA47i,6k6q,307r304rA8bjB3A81k672sA7lCc4e0pIc8Hp
      5b8Hp70bHc625jHp6dnGc52dtGc655Cp"))

/-- Whether a shift is about a code point. -/
def CodeShift.covers (shift : CodeShift) (code : Nat) : Bool :=
  shift.first ≤ code && code ≤ shift.last && (code - shift.first) % shift.stride == 0

/-- The code points that one stands for, if it stands for others. -/
def images? (code : Nat) : Option (List Nat) :=
  match shifts.find? fun shift => shift.covers code with
  | some shift => some [shift.image + (code - shift.first)]
  | none => ((singles.lookup code).map fun image => [image]).or (expansions.lookup code)

def isValid (c : Char) : Bool :=
  inRanges validRanges c

/-- What a character of a name stands for, if it may occur in one. -/
def mapChar? (c : Char) : Option (List Char) :=
  if isValid c then some [c]
  else if inRanges ignoredRanges c then some []
  else (images? c.toNat).map fun images => images.map Char.ofNat

end StoryScript.Domain
