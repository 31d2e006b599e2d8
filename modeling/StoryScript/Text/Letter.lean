import StoryScript.Text.CodeRange

/-!
Letters and digits: the characters with the Unicode property Alphabetic, and those of the
general categories Nd, Nl and No. They decide which names a symbol may be given.
-/

namespace StoryScript.Text

/-- The ranges of code points with the property Alphabetic, both ends included. -/
def alphabeticRanges : List (Nat × Nat) :=
  (0x41, 0x5a) :: (0x61, 0x7a) :: rangesFrom 0x80
    "2qgrglgm1mi1ui1cplrvkogig5ng1u1hihjjigngiiigi1ji5ii8qpali2ljgn2o2otigihihigp1qlj1uqm3nimv6linln
    lirijg1h2vu6k1p2gqhlgm1nj1i1k1ooqm1nimogp2prrkmn4riviiluu1iinjhj1limigkjknjhjhigpglhikthrgliillh
    j1limihihihlklhjhlgojig1ilsiioiii1limihikkoiiihkg1gj1mjliinjhj1limihikknjhjhqhlhikug1hhilkiijkhi
    gihkhkikrlkkiiikgng2psiii1mivkniiiiphiiihjj1tjiniii1mipikkniiiiphmiijuitsiii2ojniiiiigmjok1nliii
    1hk1nioigjmpligin1jhu3pmmng3khigiki1nigi1iiijkigngvj2hg4gni2jl1ilvi2j4k3migjk1h3vrjj2ligmgj2qi
    14sijjmigijj2oijj2gijjmigijjui3oijj4i2mv1h5ljlk26rj1gi1pm4qkqo1js1kt1jtsiiiht3jj1ivglg4k5oo2qm4l
    r1uirlo1o1tjks2rl1p3n1rl3uj1j3jg1ohsi3i3jiuin3k2pjjr2riqv3m1nir2jjqm2qji2qjilihkgmbv1k2hs11ljlj
    2ljljnigigigi1uj3kimigkiimkjjllsmiim7lgug1hs6mglgjpigkkngigigijiqjjmklg1i2o32u3j71neknjkht2ligmg
    j3nog1h1mqmimimimimimimimi1v3gg1dmi1qookjkl5lnii5pijm2qi5t1i1v3hv20h19bv4h568s4k2tj10skvrh1l2umn
    k7g2ooj6mj5h1l1ki2g1p3jt4jig2tlkgiir2gm2iu1sk3iir1gg1hvrki3mqt1j1mk4kigig1pijvjjsljljlqmimi2qitn
    7q1m2bajt1ml3g210l16tj6p2nmtkmrisikigihihi6r2i16q1j3vj3l2pr7lki8m2l1pn1ps5okljljlji2kri1pi1iihiu
    jt2j7q4m3k10s1sk3g3g1vu1tm2qm1tj2jlnik2r9t1j2jl2jl2np3jtqiuimihiqiuimihk3jt13mq1lrn1pli2pio4mljg
    i2rihkgj1mr1mq1u4i1iihr1lr1pn1p2n3nnh4hjihmniii1s2r1sk1s2kni1r1s3lr1lr1iu1h6v4o3o3iu3iu2n2j1rkgm
    1mfr2pihkh1hl3jik1srgp1l2r1h2v1k1s1mq4l2skr3oqgu1o1o3i1ijp2ikgq3vijqhrgig2k1hi2hjgnj3vmigijiuipo
    3o1ojinjhj1limihikknjhjhkgngmm1tpigjgi2lipigjgijihkgig2t4hiiij1li1v4hjhigbp3ljm1ql2j3uigkg3s3ljg
    4o1qjt1mmbq3o6o3v2gnjgjnihi1tihjhjj5unj2tjligih1s3ijp1i4nmg1j4o6on5p2g2goi2simig3i1tj1lit4qmihi
    2rkgihiiigjh1plihi2kihijig1o2r10l1mq1gi2oki7gg5g39p6n6u1icja4t6g1g42v1il1qf9qm24m1abq2u6di23oo1u
    1i4u1i1t1j2v1hj2g1km1i1bh2sdk3v2h1oj1o2t4ql3oo1g4hhigtmq1cdl2q1v6i7i21fujimihi12i1gg1uijgvjp18r
    90l6qmskooplg176i5ki4mihjgjhjjirigimi4gijjnimi1rijikigkmi15jj1oi1oi1ui1oi1ui1oi1ui1oi1ui1oin73l
    1unldmmi1gjmihikm3t2ig7h2srm1hg14i1t1j2r1el1rel1tjgdg1ui1lphehmijihiuick3s4jkgkg4blji1qihigjgipi
    jigignglgigigiiihigjgigigigigihigjjimijijigipi1gmiiki1g27l1pn1pn1pe7na6dv2h111tj168tj1d3g1g26t
    9aj21t5ej134qm212p"

/-- The ranges of code points in the general categories Nd, Nl and No, both ends included. -/
def numericRanges : List (Nat × Nat) :=
  (0x30, 0x39) :: rangesFrom 0x80
    "3ihmgji5aip8npcnp19tp7npll6tp7np7npjl6vs7kppm6op6pmo1i6up6hp7np4n1j10tp4np2dg1j37iifgpnp1np12tp
    8hqampnpbnp5np8npnp41ngklnpcn3ijk2dn3r4v1l27n1t56qg30qg1qovi15oj8rp1vniu2hp2ou736hpbtp14hl9rp2np
    cnp1np5np19np531np1eu2st3o1ih15m1q2lj1ugpg8nkcrp3avn1qm2oo4sk1nlahhjvj2t4ho3lh1vi4sk6pn1pn2qm14r
    l3hpnp11n1u9vp2rj7hm8n1t8hp3tp9hpo1jfsp15np7np17np6npn1j4tr1al1i5up29np5n1sekp4np3np16np6n1k42s
    6u3ccip92np5np8npim20vp10n1m15ui5cfqp5cn1jt1j6t1o45m3h94hp1anp1fnpfop2cto8hp31o3qiiij4t2siu
    3cjsaekp"

def isAlphabetic (c : Char) : Bool :=
  inRanges alphabeticRanges c

def isAlphanumeric (c : Char) : Bool :=
  isAlphabetic c || inRanges numericRanges c

end StoryScript.Text
