import StoryScript.Script.Scan

/-!
The scanner as a program on bytes. It reads a line by index, partly in a copy in which strings, diverts
and tags are overwritten with spaces byte by byte, and cuts words out of the line at the indices that
it finds there. Every index and every slice is checked: one out of range, or a slice of the line that
starts or ends inside a character, has no result, and neither has a loop that makes more steps than its
line has bytes.
-/

namespace StoryScript.Script.Checked

open Reference Text

/-! ### Bytes -/

/-- The bytes of a text. -/
def encode (t : List Char) : List UInt8 :=
  t.flatMap String.utf8EncodeChar

/-- A byte as a character. Only those below 128 stand for one. -/
def asChar (byte : UInt8) : Char :=
  Char.ofNat byte.toNat

/-- The bytes between two indices. -/
def range? (bs : List UInt8) (start stop : Nat) : Option (List UInt8) :=
  if start ≤ stop ∧ stop ≤ bs.length then some ((bs.drop start).take (stop - start)) else none

/-- The bytes with spaces between two indices. -/
def blank? (bs : List UInt8) (start stop : Nat) : Option (List UInt8) :=
  if start ≤ stop ∧ stop ≤ bs.length then
    some (bs.take start ++ List.replicate (stop - start) 32 ++ bs.drop stop)
  else none

/-- The text between two indices of its bytes. -/
def word? (cd : List Char) (start stop : Nat) : Option String :=
  (slice? cd start stop).map String.ofList

/-- Whether the byte at an index is a character. There need not be a byte. -/
def isAt (c : Char) (bs : List UInt8) (i : Nat) : Bool :=
  bs[i]?.any fun byte ↦ asChar byte == c

/-- Steps over the bytes of a class, up to a stop. -/
def skipWhile? (p : Char → Bool) (bs : List UInt8) (stop i : Nat) : Option Nat :=
  if i < stop then do
    let byte ← bs[i]?
    if p (asChar byte) then skipWhile? p bs stop (i + 1) else some i
  else some i
termination_by stop - i

def isBlankChar (c : Char) : Bool :=
  c == ' ' || c == '\t'

def skipBlanks? (bs : List UInt8) (i : Nat) : Option Nat :=
  skipWhile? isBlankChar bs bs.length i

/-- The end of a dotted name that has started. -/
def nameRestEnd? (bs : List UInt8) (i : Nat) : Option Nat :=
  if i < bs.length then do
    let byte ← bs[i]?
    if continuesName (asChar byte) then nameRestEnd? bs (i + 1)
    else if asChar byte == '.' && bs[i + 1]?.any fun n ↦ startsName (asChar n) then
      nameRestEnd? bs (i + 1)
    else some i
  else some i
termination_by bs.length - i

/-- The end of the dotted name at an index; the index itself if there is none. -/
def nameEnd? (bs : List UInt8) (i : Nat) : Option Nat :=
  if i < bs.length then do
    let byte ← bs[i]?
    if startsName (asChar byte) then nameRestEnd? bs i else some i
  else some i

/-- The index behind a whole word, if the word stands at an index. -/
def wordEnd (w : String) (bs : List UInt8) (i : Nat) : Option Nat :=
  let stop := i + (encode w.toList).length
  if range? bs i stop = some (encode w.toList) ∧
      (bs[stop]?.any fun n ↦ continuesName (asChar n)) = false then some stop
  else none

/-- Whether the bytes from an index on start with a text. -/
def startsAt? (t : List Char) (bs : List UInt8) (i : Nat) : Option Bool :=
  (range? bs i bs.length).map fun r ↦ (encode t).isPrefixOf r

/-- Steps over a word that need not be there, and the blanks behind it. -/
def skipWord? (w : String) (bs : List UInt8) (i : Nat) : Option Nat :=
  match wordEnd w bs i with
  | some bh => skipBlanks? bs bh
  | none => some i

/-- Steps over an arrow that need not be there, and the blanks behind it. -/
def skipArrow? (bs : List UInt8) (i : Nat) : Option Nat := do
  if ← startsAt? ['-', '>'] bs i then skipBlanks? bs (i + 2) else some i

/-- Overwrites strings with spaces. -/
def maskStrings (i : Bool) : List UInt8 → List UInt8
  | [] => []
  | byte :: r =>
    if asChar byte = '"' then 32 :: maskStrings (!i) r
    else (if i then 32 else byte) :: maskStrings i r

/-! ### Names -/

section Line

variable (cd : List Char) (b : Nat)

/-- A value attached to the bytes between two indices of the line. -/
def marked {α : Type} (start stop : Nat) (v : α) : Annotated α :=
  ⟨⟨b + start, b + stop⟩, v⟩

/-- Visits the segments of a name, each with the indices where it starts and stops. -/
def segments? (visit : Nat → Nat → String → Option (List (Annotated Reference))) :
    Nat → List String → Option (List (Annotated Reference))
  | _, [] => some []
  | start, s :: l => do
    let stop := start + byteLength s.toList
    let f ← visit start stop s
    let r ← segments? visit (stop + 1) l
    return f ++ r

/-- The read of one segment of a dotted name. -/
def segmentRead? (start x last : Nat) (s : String) : Option (List (Annotated Reference)) :=
  if s = "" then some []
  else if x = start then
    some [marked b x last (ofUse .read (".." ++ s))]
  else
    (word? cd start last).map fun path ↦ [marked b x last (ofUse .read path)]

/-- The reads of a dotted name. -/
def dottedRead? (start stop : Nat) : Option (List (Annotated Reference)) := do
  let name ← word? cd start stop
  segments? (segmentRead? cd b start) start (Text.split '.' name)

/-- The reference of one segment of a divert's path. -/
def segmentDivert? (start x last : Nat) (s : String) : Option (List (Annotated Reference)) :=
  if s = "" ∨ s = Path.parent then some []
  else
    (word? cd start last).map fun upTo ↦ [marked b x last (ofUse .divert upTo)]

/-- The references of a divert's path. -/
def divertTarget? (start stop : Nat) : Option (List (Annotated Reference)) := do
  let path ← word? cd start stop
  if path ∈ reservedTargets then return []
  else segments? (segmentDivert? cd b start) start (Text.split '.' path)

/-! ### Diverts and tags -/

/-- Overwrites a second `->` behind an arrow, and gives the index behind it. -/
def secondArrow? (m : List UInt8) (i : Nat) : Option (List UInt8 × Nat) := do
  if ← startsAt? ['-', '>'] m i then
    let m ← blank? m i (i + 2)
    return (m, i + 2)
  else return (m, i)

/-- The references of a divert's path, and the line without it. There need not be a path. -/
def target? (m : List UInt8) (start stop : Nat) :
    Option (List (Annotated Reference) × List UInt8) :=
  if start < stop then do
    let f ← divertTarget? cd b start stop
    let m ← blank? m start stop
    return (f, m)
  else some ([], m)

/-- Takes the diverts out of a line, from an index on. -/
def diverts? : Nat → List UInt8 → Nat → Option (List (Annotated Reference) × List UInt8)
  | 0, _, _ => none
  | fuel + 1, m, i =>
    if i + 1 < m.length then do
      let arrow ← range? m i (i + 2)
      if arrow = encode ['-', '>'] ∨ arrow = encode ['<', '-'] then
        let m ← blank? m i (i + 2)
        let (m, bh) ← secondArrow? m (i + 2)
        let start ← skipBlanks? m bh
        let stop ← skipWhile? (fun c ↦ isPathChar ⟨0, c⟩) m m.length start
        let (f, m) ← target? cd b m start stop
        let (l, m) ← diverts? fuel m (max stop bh)
        return (f ++ l, m)
      else diverts? fuel m (i + 1)
    else return ([], m)

/-- The kind of a tag at an index, and the index behind its colon. -/
def tagAt (m : List UInt8) (i : Nat) : Option (AssetKind × Nat) :=
  AssetKind.all.findSome? fun k ↦ (wordEnd k.name m i).bind fun bh ↦
      if isAt ':' m bh then some (k, bh + 1) else none

/-- The reference of a tag. It need not have a name. -/
def tagReference? (k : AssetKind) (start stop : Nat) : Option (List (Annotated Reference)) :=
  if start < stop then
    (word? cd start stop).map fun name ↦
      [marked b start stop (ofUse .read (k.name ++ "." ++ name))]
  else some []

/-- Takes the asset tags out of a line, from an index on. -/
def tags? : Nat → List UInt8 → Nat → Option (List (Annotated Reference) × List UInt8)
  | 0, _, _ => none
  | fuel + 1, m, i =>
    if i < m.length then do
      let byte ← m[i]?
      if asChar byte = '#' then
        let l ← skipBlanks? m (i + 1)
        match tagAt m l with
        | some (k, bh) =>
          let start ← skipBlanks? m bh
          let stop ← skipWhile? (fun c ↦ isTagChar ⟨0, c⟩) m m.length start
          let f ← tagReference? cd b k start stop
          let m ← blank? m i stop
          let (lt, m) ← tags? fuel m (max stop (i + 1))
          return (f ++ lt, m)
        | none => tags? fuel m (i + 1)
      else tags? fuel m (i + 1)
    else return ([], m)

/-! ### Expressions -/

/-- The names that are read between two indices. -/
def expression? (m : List UInt8) (stop : Nat) :
    Nat → Nat → Option (List (Annotated Reference))
  | 0, _ => none
  | fuel + 1, i =>
    if i < stop then do
      let byte ← m[i]?
      if (asChar byte).isDigit then
        let bh ← skipWhile? (fun c ↦ continuesNumber ⟨0, c⟩) m stop i
        expression? m stop fuel bh
      else if startsName (asChar byte) then
        let bh ← nameEnd? m i
        let bh := min bh stop
        let t ← word? cd i bh
        let f ← if t ∈ keywords then some [] else dottedRead? cd b i bh
        let l ← expression? m stop fuel bh
        return f ++ l
      else expression? m stop fuel (i + 1)
    else return []

/-- The names that are read from an index to the end of the line. -/
def reads? (m : List UInt8) (i : Nat) : Option (List (Annotated Reference)) :=
  expression? cd b m m.length (m.length + 1) i

/-- Whether the bytes between two indices have no dot. -/
def isDotless? (m : List UInt8) (start stop : Nat) : Option Bool :=
  (range? m start stop).map fun name ↦ name.all fun byte ↦ asChar byte ≠ '.'

/-- The value of an assignment. -/
def assignedReads? (a : String) (m : List UInt8) (i : Nat) :
    Option (List (Annotated Reference)) := do
  let start ← skipBlanks? m i
  let stop ← nameEnd? m start
  if start < stop then
    let dotless ← isDotless? m start stop
    let bh ← skipBlanks? m stop
    let name ← word? cd start stop
    let x ← m[start]?
    if dotless = true ∧ m.length ≤ bh ∧ name ∉ keywords ∧ (asChar x).isDigit = false then
      return [marked b start stop
        { symbolIds := [".." ++ name, "?." ++ name]
          usage := some .read
          selectors := [Selector.any name]
          assigned := some a }]
    else reads? cd b m i
  else reads? cd b m i

/-- What is read between braces that open and close at two indices. -/
def braceReads? (m : List UInt8) (start stop : Nat) : Option (List (Annotated Reference)) := do
  let start ← skipWhile? (fun c ↦ c == '~' || c == '&' || c == '!') m stop start
  let colon ← skipWhile? (fun c ↦ c ≠ ':') m stop start
  let i ← range? m start stop
  let stop := if colon < stop then colon
    else if i.any fun byte ↦ asChar byte == '|' then start
    else stop
  expression? cd b m stop (m.length + 1) start

/-- What is read between braces, from an index on. -/
def inlineReads? (m : List UInt8) : Nat → Nat → Option (List (Annotated Reference))
  | 0, _ => none
  | fuel + 1, i =>
    if i < m.length then do
      let byte ← m[i]?
      if asChar byte = '\x7b' then
        let _ ← range? m (i + 1) m.length
        let close ← skipWhile? (fun c ↦ c ≠ '\x7d') m m.length (i + 1)
        if close < m.length then
          let f ← braceReads? cd b m (i + 1) close
          let l ← inlineReads? m fuel (close + 1)
          return f ++ l
        else return []
      else inlineReads? m fuel (i + 1)
    else return []

/-! ### Statements -/

/-- A name that is declared within a scope. -/
def declaration? (sc : Scope) (k : SymbolKind) (start stop : Nat) : Option (Annotated Reference) :=
  (word? cd start stop).map fun name ↦
    marked b start stop (ofDeclaration k (Path.within sc.path name))

/-- The value behind an equal sign, if there is one. -/
def initialReads? (a : String) (m : List UInt8) (i : Nat) :
    Option (List (Annotated Reference)) := do
  let sign ← skipBlanks? m i
  if isAt '=' m sign then assignedReads? cd b a m (sign + 1) else return []

/-- A global declaration, behind its keyword. -/
def globalLine? (k : SymbolKind) (m : List UInt8) (i : Nat) :
    Option (List (Annotated Reference)) := do
  let start ← skipBlanks? m i
  let stop ← nameEnd? m start
  if start = stop then return []
  else
    let name ← word? cd start stop
    let v ← initialReads? cd b name m stop
    return marked b start stop (ofDeclaration k name) :: v

/-- The length of the assignment operator at an index. -/
def assignmentLength (m : List UInt8) (i : Nat) : Option Nat :=
  if range? m i (i + 2) = some (encode ['+', '=']) ∨
      range? m i (i + 2) = some (encode ['-', '=']) then some 2
  else if isAt '=' m i then some 1
  else none

/-- A line of logic, behind its tilde. -/
def logicLine? (sc : Scope) (m : List UInt8) (i : Nat) : Option (List (Annotated Reference)) := do
  let i ← skipBlanks? m i
  match wordEnd "temp" m i, wordEnd "return" m i with
  | some bh, _ =>
    let start ← skipBlanks? m bh
    let stop ← nameEnd? m start
    if start = stop then return []
    else
      let name ← word? cd start stop
      let d ← declaration? cd b sc .temp start stop
      let v ← initialReads? cd b (Path.within sc.path name) m stop
      return d :: v
  | none, some bh => reads? cd b m bh
  | none, none =>
    let stop ← nameEnd? m i
    if i < stop then
      let dotless ← isDotless? m i stop
      if dotless = true then
        let operator ← skipBlanks? m stop
        match assignmentLength m operator with
        | some length =>
          let name ← word? cd i stop
          let v ← assignedReads? cd b name m (operator + length)
          return marked b i stop (ofUse .write (".." ++ name)) :: v
        | none => reads? cd b m i
      else reads? cd b m i
    else reads? cd b m i

/-- The index behind bullets and blanks, and whether there is a bullet among them. -/
def bullets? (m : List UInt8) (s : Bool) (i : Nat) : Option (Bool × Nat) :=
  if i < m.length then do
    let byte ← m[i]?
    if asChar byte = '*' ∨ asChar byte = '+' ∨
        (asChar byte = '-' ∧ isAt '>' m (i + 1) = false) then bullets? m true (i + 1)
    else if isBlankChar (asChar byte) then bullets? m s (i + 1)
    else return (s, i)
  else return (s, i)
termination_by m.length - i

/-- The label of a choice or gather. -/
def labelLine? (sc : Scope) (m : List UInt8) (i : Nat) : Option (List (Annotated Reference)) := do
  let (s, i) ← bullets? m false i
  if s = true ∧ isAt '(' m i = true then
    let start ← skipBlanks? m (i + 1)
    let stop ← nameEnd? m start
    let close ← skipBlanks? m stop
    if start < stop ∧ isAt ')' m close = true then
      let d ← declaration? cd b sc .label start stop
      return [d]
    else return []
  else return []

/-- The declaration, assignment, logic or label of a line. -/
def statementLine? (sc : Scope) (m : List UInt8) (i : Nat) :
    Option (List (Annotated Reference)) := do
  match wordEnd "VAR" m i, wordEnd "CONST" m i with
  | some bh, _ => globalLine? cd b .var m bh
  | none, some bh => globalLine? cd b .const m bh
  | none, none =>
    let byte ← m[i]?
    if asChar byte = '~' then logicLine? cd b sc m (i + 1)
    else labelLine? cd b sc m i

/-- A line that is no header, include or list. -/
def plainLine? (sc : Scope) (i : Nat) : Option (List (Annotated Reference)) := do
  let m := maskStrings false (encode cd)
  let (diverts, m) ← diverts? cd b (m.length + 1) m 0
  let (tags, m) ← tags? cd b (m.length + 1) m 0
  let statement ← statementLine? cd b sc m i
  let inline ← inlineReads? cd b m (m.length + 1) 0
  return diverts ++ tags ++ statement ++ inline

/-! ### Headers, lists and includes -/

/-- The parameter between two indices, if there is one. -/
def parameterAt? (sc : Scope) (start stop : Nat) : Option (List (Annotated Reference)) :=
  if start < stop then (declaration? cd b sc .param start stop).map fun d ↦ [d]
  else some []

/-- The parameters up to a closing parenthesis, from an index on. -/
def parametersFrom? (sc : Scope) (bs : List UInt8) :
    Nat → Nat → Option (List (Annotated Reference))
  | 0, _ => none
  | fuel + 1, i =>
    if i < bs.length then do
      let byte ← bs[i]?
      if asChar byte = ')' then return []
      else
        let i ← skipBlanks? bs i
        let i ← skipWord? "ref" bs i
        let start ← skipArrow? bs i
        let stop ← nameEnd? bs start
        let f ← parameterAt? cd b sc start stop
        let comma ← skipWhile? (fun c ↦ c != ',' && c != ')') bs bs.length stop
        let l ← parametersFrom? sc bs fuel
          (if isAt ',' bs comma then comma + 1 else comma)
        return f ++ l
    else return []

/-- The parameters declared behind a section's name. -/
def parameters? (sc : Scope) (bs : List UInt8) (i : Nat) : Option (List (Annotated Reference)) := do
  let i ← skipBlanks? bs i
  if isAt '(' bs i then parametersFrom? cd b sc bs (bs.length + 1) (i + 1)
  else return []

def knotHeader? (scope : Scope) (bs : List UInt8) (i : Nat) : Option LineScan := do
  let i ← skipWhile? (fun c ↦ c == '=' || isHeaderSpace c) bs bs.length i
  let start ← skipWord? "function" bs i
  let stop ← nameEnd? bs start
  if start = stop then return { scope }
  else
    let name ← word? cd start stop
    let inner := scope.enter .knot name
    let declared ← parameters? cd b inner bs stop
    return { scope := inner
             references := marked b start stop (ofDeclaration .knot name) :: declared }

/-- A stitch's header, behind its equal sign. -/
def stitchHeader? (scope : Scope) (bytes : List UInt8) (i : Nat) : Option LineScan := do
  let start ← skipBlanks? bytes i
  let stop ← nameEnd? bytes start
  if start = stop then return { scope }
  else
    let name ← word? cd start stop
    let declared ← declaration? cd b { scope with stitch := none } .stitch start stop
    let inner := scope.enter .stitch name
    let parameters ← parameters? cd b inner bytes stop
    return { scope := inner, references := declared :: parameters }

/-- The members of a list, from an index on. -/
def listMembers? (list : String) (bs : List UInt8) :
    Nat → Nat → Option (List (Annotated Reference))
  | 0, _ => none
  | fuel + 1, i =>
    if i < bs.length then do
      let start ← skipWhile? (fun c ↦ !startsName c && c != ',') bs bs.length i
      if start < bs.length then
        let byte ← bs[start]?
        if asChar byte = ',' then listMembers? list bs fuel (start + 1)
        else
          let stop ← nameEnd? bs start
          let name ← word? cd start stop
          let comma ← skipWhile? (fun c ↦ c != ',') bs bs.length stop
          let l ← listMembers? list bs fuel comma
          return marked b start stop (ofDeclaration .define (list ++ "." ++ name)) ::
            l
      else return []
    else return []

/-- The members behind an equal sign, if there is one. -/
def initialMembers? (list : String) (bs : List UInt8) (i : Nat) :
    Option (List (Annotated Reference)) := do
  let sign ← skipWhile? (fun c ↦ c ≠ '=') bs bs.length i
  if sign < bs.length then listMembers? cd b list bs (bs.length + 1) (sign + 1)
  else return []

/-- A list declaration, behind its keyword. -/
def listLine? (bs : List UInt8) (i : Nat) : Option (List (Annotated Reference)) := do
  let start ← skipBlanks? bs i
  let stop ← nameEnd? bs start
  if start = stop then return []
  else
    let list ← word? cd start stop
    let _ ← word? cd stop bs.length
    let members ← initialMembers? cd b list bs stop
    return marked b start stop (ofDeclaration .list list) :: members

/-- An include, behind its keyword. -/
def includeLine? (scope : Scope) (bytes : List UInt8) (i : Nat) : Option LineScan := do
  let start ← skipBlanks? bytes i
  let stop := byteLength (trimEndWhile isWhiteSpace cd)
  if start < stop then
    let path ← word? cd start stop
    return { scope, includes := [marked b start stop ⟨path⟩] }
  else return { scope }

/-- Reads the code of one line. -/
def codeLine? (scope : Scope) : Option LineScan := do
  let bs := encode cd
  let start ← skipBlanks? bs 0
  if start < bs.length then
    let rest ← slice? cd start bs.length
    if ['=', '='].isPrefixOf rest then knotHeader? cd b scope bs start
    else if ['='].isPrefixOf rest then stitchHeader? cd b scope bs (start + 1)
    else
      match wordEnd "INCLUDE" bs start, wordEnd "LIST" bs start with
      | some behind, _ => includeLine? cd b scope bs behind
      | none, some behind =>
        let references ← listLine? cd b bs behind
        return { scope, references }
      | none, none =>
        let references ← plainLine? cd b scope start
        return { scope, references }
  else return { scope }

end Line

/-! ### Scripts -/

/-- Where the comment of a line starts. -/
def commentStart : List Char → Option Nat
  | [] => none
  | c :: r =>
    if c = '/' ∧ r.head? = some '/' then some 0
    else (commentStart r).map (c.utf8Size + ·)

/-- A line without the comment at its end. -/
def uncommented? (l : List Char) : Option (List Char) :=
  match commentStart l with
  | some start => slice? l 0 start
  | none => some l

/-- Reads one line of a script. -/
def scanLine? (sc : Scope) (l : List Char) (b : Nat) : Option LineScan := do
  let cd ← uncommented? l
  codeLine? cd b sc

/-- The lines of a text, each with the line feed at its end. -/
def rawLines : List Char → List (List Char)
  | [] => []
  | c :: r =>
    if c = '\n' then [c] :: rawLines r
    else
      match rawLines r with
      | [] => [[c]]
      | l :: lt => (c :: l) :: lt

def scanLines? (sc : Scope) (off : Nat) :
    List (List Char) → Option (List (Annotated Reference) × List (Annotated Include))
  | [] => some ([], [])
  | raw :: lt => do
    let l := trimEndWhile (fun c ↦ c == '\n' || c == '\r') raw
    let scan ← scanLine? sc l off
    let (rs, includes) ← scanLines? scan.scope (off + byteLength raw) lt
    return (scan.references ++ rs, scan.includes ++ includes)

/-- The annotations of a script. -/
def annotate? (t : String) : Option Annotations :=
  (scanLines? Scope.top 0 (rawLines t.toList)).map fun (rs, includes) ↦
    Annotations.ofLists rs includes

end StoryScript.Script.Checked
