import StoryScript.Text.CodeRange

/-!
Marks that stand on, under or beside other characters.
-/

namespace StoryScript.Text

/-- The ranges of the general categories Mn and Me, which make up the bidirectional class NSM. -/
def markRanges : List (Nat × Nat) :=
  rangesOf
    "30g3vjgkoi1v11km10o2sigihihig4pq3h1k1hg6mmjljhij2kg1v1q5sq3roqg1pjioiiik2si3so2r1ni1v3ogiglnlgk
    mrh1ug3rgljpg1lh1rgjh3qglhlhjikg1vhkgsh3qglkihlg1lh1nlig3rgjgijpgohsh1vg3ugtg3jgkg3ogiimiijohsh
    1ug3rg1gh1lh1th3qhljpg1lh1ug4pgoiig5rgjmtn6jgjosm4qh1sgigig3ohigmkigiiihmlijijijijijiriiqg6njili
    hjh1qhli1hjugjhng1gg2cgi3bji1uh1vh1vh4kmpgjqqgaoh2jg7nilhqgnidshjg3rgimigigjnnpjg3h2tjr1lj3hgiki
    gmg2poth2hjjhii3pgihkgii3rnjh9piisimlgngkhcn3v2dh2gbfvi8ug6h1v22rj6sh75dljip2hh5hh11hgkglg1qhmg
    9oh1r1hug2nn1qq2vi3hgjjjh2og4kljhjhtgpg3gg3kgiijhmhig2rhpgevgjglg4f3hg30iv3cugejg9mk68niihmj2pil
    gamh23uj4ik13uh4ul4nq3ij7sg3nu2qgjhri3ijjhog3ui2lkin3vgth3lorjjg6gijgihngjg9ugkn1mh3qhkg2mmkk4nl
    ugigigvh5mnjiig1og5lliglhihevjnhih1sh5mnjgih6rgigjlig6mijjik10koih10hhiglg9hjjhlg2hljh2pljjpgqlj
    i2vsihcngiiigcqmil5l1ljmihih7rlkgihimig4phkgig15shsh3lkmgig1og14emgnu2ccprki9chk3sm41pg4gj5ig
    4cbph126i2tj1m22hi1injm1vj9li7bs3ml3hpgvg1nkiu55hmi1gjmihik6lgahm17og3uj1ftjfvhfkgjgohmg
    1drm6um"

/-- The ranges of the general category Mc. -/
def spacingMarkRanges : List (Nat × Nat) :=
  rangesOf
    "90jg3ogjipjih3jh3rinhjhrg2sg3ri4jg3ripgih3mh3rgignhjhrg6nhihkiiirg2qi3uj3uh3rmiiihqh1tgvh3rimii
    irg2rh4sinn1jh14rh4ggashlgngjh1qhrijm1mhjljgri67pg1vg8igonih15rjjilhilehh3rgigqgihpl9ig3hgmgikih
    3ug1vglhjg3tgjiigkh3hnphasg1mg133nh77fkhjg5ph3jv8vh3gg3hhlhji6vhjh1pg2ugig6ugjhmgeuhihihig641kgi
    g8gg2uilh7kg1ph3sg3hiqhug5uikhigari2gh3rhijjhjiqgrh5liogjgijihig6miphkg6ringijjgeuinjjg7iiphig6u
    gihng6qhlg10miqgfolihlgjgig8vipjlg2jh3hg1uh3vgcqgkgigcogvh6qgogjgdmklhig15vhtg3hhphig41epie2l3m
    6ph617khnl"

/-- Whether a character is a mark that takes no room of its own. -/
def isMark (c : Char) : Bool :=
  inRanges markRanges c

def isSpacingMark (c : Char) : Bool :=
  inRanges spacingMarkRanges c

end StoryScript.Text
