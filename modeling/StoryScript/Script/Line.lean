import StoryScript.Scope
import StoryScript.Script.Expression
import StoryScript.Script.Mask

/-!
What one line of a script declares, uses and includes. Section headers, includes and list
declarations take a whole line; any other line may hold diverts, tags and conditions beside a
declaration, an assignment or a label.
-/

namespace StoryScript.Script

open Reference

/-- What a line holds, and the scope behind it. -/
structure LineScan where
  scope : Scope
  references : List (Annotated Reference) := []
  includes : List (Annotated Include) := []

/-- A declaration whose id lies within a scope. -/
def declareWithin (scope : Scope) (kind : SymbolKind) (name : List Glyph) :
    Annotated Reference :=
  mark name (ofDeclaration kind (Path.within scope.path (spell name)))

/-- The parameter that one item of a parameter list declares. -/
def parameter? (scope : Scope) (item : List Glyph) : Option (Annotated Reference) :=
  let body := skipBlanks item
  let body := ((dropWord? "ref" body).map skipBlanks).getD body
  let body := ((dropText? ['-', '>'] body).map skipBlanks).getD body
  let name := takeName body
  if name = [] then none else some (declareWithin scope .param name)

/-- The parameters declared behind a section's name. -/
def parameters (scope : Scope) (line : List Glyph) : List (Annotated Reference) :=
  match skipBlanks line with
  | ⟨_, '('⟩ :: inner =>
    ((inner.takeWhile fun glyph => glyph.char ≠ ')').splitOnP fun glyph =>
      glyph.char == ',').filterMap (parameter? scope)
  | _ => []

/-- White space in a knot's header. -/
def isHeaderSpace (c : Char) : Bool :=
  c == ' ' || c == '\t' || c == '\n' || c == '\x0c' || c == '\r'

/-- A knot's header: equal signs, the word `function` or not, a name and parameters. -/
def knotHeader (scope : Scope) (line : List Glyph) : LineScan :=
  let body := line.dropWhile fun glyph => glyph.char == '=' || isHeaderSpace glyph.char
  let body := ((dropWord? "function" body).map skipBlanks).getD body
  let name := takeName body
  if name = [] then { scope }
  else
    let inner := scope.enter .knot (spell name)
    { scope := inner
      references := mark name (ofDeclaration .knot (spell name)) ::
        parameters inner (body.drop name.length) }

/-- A stitch's header, behind its equal sign: a name and parameters. -/
def stitchHeader (scope : Scope) (line : List Glyph) : LineScan :=
  let body := skipBlanks line
  let name := takeName body
  if name = [] then { scope }
  else
    let inner := scope.enter .stitch (spell name)
    { scope := inner
      references := declareWithin { scope with stitch := none } .stitch name ::
        parameters inner (body.drop name.length) }

/-- An include, behind its keyword: the path is the rest of the line. -/
def includeLine (scope : Scope) (line : List Glyph) : LineScan :=
  let path := Text.trimEndWhile (fun glyph => Text.isWhiteSpace glyph.char) (skipBlanks line)
  { scope, includes := if path = [] then [] else [mark path ⟨spell path⟩] }

/-- The member that one item of a list's values declares. -/
def listMember? (list : String) (item : List Glyph) : Option (Annotated Reference) :=
  let name := takeName (item.dropWhile fun glyph => !startsName glyph.char)
  if name = [] then none
  else some (mark name (ofDeclaration .define (list ++ "." ++ spell name)))

/-- A list declaration, behind its keyword: the name of the list, and its members behind an equal
sign. -/
def listLine (line : List Glyph) : List (Annotated Reference) :=
  let body := skipBlanks line
  let name := takeName body
  if name = [] then []
  else
    let values := ((body.drop name.length).dropWhile fun glyph => glyph.char ≠ '=').drop 1
    mark name (ofDeclaration .list (spell name)) ::
      (values.splitOnP fun glyph => glyph.char == ',').filterMap (listMember? (spell name))

/-- The value behind an equal sign, if there is one. -/
def initialReads (assigned : String) (line : List Glyph) : List (Annotated Reference) :=
  match skipBlanks line with
  | ⟨_, '='⟩ :: value => assignedReads assigned value
  | _ => []

/-- A global declaration, behind its keyword. -/
def globalLine (kind : SymbolKind) (line : List Glyph) : List (Annotated Reference) :=
  let body := skipBlanks line
  let name := takeName body
  if name = [] then []
  else
    mark name (ofDeclaration kind (spell name)) ::
      initialReads (spell name) (body.drop name.length)

/-- What follows an assignment's operator at the front of a line. -/
def dropAssignment? : List Glyph → Option (List Glyph)
  | ⟨_, '+'⟩ :: ⟨_, '='⟩ :: value | ⟨_, '-'⟩ :: ⟨_, '='⟩ :: value => some value
  | ⟨_, '='⟩ :: value => some value
  | _ => none

/-- A line of logic, behind its tilde: a temporary variable, a result, an assignment to a name
without dots, or an expression. -/
def logicLine (scope : Scope) (line : List Glyph) : List (Annotated Reference) :=
  let body := skipBlanks line
  match dropWord? "temp" body, dropWord? "return" body with
  | some rest, _ =>
    let rest := skipBlanks rest
    let name := takeName rest
    if name = [] then []
    else
      declareWithin scope .temp name ::
        initialReads (Path.within scope.path (spell name)) (rest.drop name.length)
  | none, some result => reads result
  | none, none =>
    let name := takeName body
    let value := if name ≠ [] ∧ name.all fun glyph => glyph.char ≠ '.' then
      dropAssignment? (skipBlanks (body.drop name.length)) else none
    match value with
    | some value =>
      mark name (ofUse .write (".." ++ spell name)) :: assignedReads (spell name) value
    | none => reads body

def isBullet (glyph : Glyph) : Bool :=
  glyph.char == '*' || glyph.char == '+' || glyph.char == '-'

/-- The label of a choice or gather: a name in parentheses behind its bullets. -/
def labelLine (scope : Scope) (line : List Glyph) : List (Annotated Reference) :=
  let isMargin : Glyph → Bool := fun glyph => isBullet glyph || glyph.isBlank
  match (line.takeWhile isMargin).any isBullet, line.dropWhile isMargin with
  | true, ⟨_, '('⟩ :: rest =>
    let body := skipBlanks rest
    let name := takeName body
    match skipBlanks (body.drop name.length) with
    | ⟨_, ')'⟩ :: _ => if name = [] then [] else [declareWithin scope .label name]
    | _ => []
  | _, _ => []

/-- The declaration, assignment, logic or label of a line. -/
def statementLine (scope : Scope) (line : List Glyph) : List (Annotated Reference) :=
  match dropWord? "VAR" line, dropWord? "CONST" line, line with
  | some declared, _, _ => globalLine .var declared
  | none, some declared, _ => globalLine .const declared
  | none, none, ⟨_, '~'⟩ :: logic => logicLine scope logic
  | none, none, _ => labelLine scope line

/-- A line that is no header, include or list: its diverts and tags, its statement, and what it
reads between braces. The line starts behind its margin of blanks. -/
def plainLine (scope : Scope) (line : List Glyph) : List (Annotated Reference) :=
  let diverts := maskDiverts (maskStrings false line)
  let tags := maskTags diverts.line
  diverts.found ++ tags.found ++ statementLine scope tags.line ++ inlineReads tags.line

/-- A line without the comment at its end. -/
def dropComment : List Glyph → List Glyph
  | ⟨_, '/'⟩ :: ⟨_, '/'⟩ :: _ => []
  | glyph :: rest => glyph :: dropComment rest
  | [] => []

/-- Reads one line of a script, in the scope that it stands in. -/
def scanLine (scope : Scope) (line : List Glyph) : LineScan :=
  let code := skipBlanks (dropComment line)
  match code with
  | ⟨_, '='⟩ :: ⟨_, '='⟩ :: _ => knotHeader scope code
  | ⟨_, '='⟩ :: rest => stitchHeader scope rest
  | _ =>
    match dropWord? "INCLUDE" code, dropWord? "LIST" code with
    | some path, _ => includeLine scope path
    | none, some declared => { scope, references := listLine declared }
    | none, none => { scope, references := plainLine scope code }

end StoryScript.Script
