import StoryScript.Context
import StoryScript.Json.Basic
import StoryScript.Text.Position
import StoryScript.Uri.Basic

/-!
Compiled programs: the scripts that belong together, what is wrong with each of them, and their
symbols.
-/

namespace StoryScript

/-- A version of a document. -/
abbrev Version := Int32

/-- The code of a diagnostic. -/
inductive DiagnosticCode where
  | number (value : Int32)
  | text (value : String)
deriving DecidableEq, Inhabited

/-- A place that a diagnostic refers to besides its own. -/
structure RelatedInformation where
  uri : Uri
  range : Range
  message : String
deriving DecidableEq, Inhabited

/-- A fault in a script. -/
structure Diagnostic where
  range : Range
  message : String
  severity : Option Int32 := none
  code : Option DiagnosticCode := none
  /-- Where the code is explained. -/
  description : Option Uri := none
  source : Option String := none
  related : Option (List RelatedInformation) := none
  tags : Option (List Int32) := none
  data : Option Json := none
deriving DecidableEq, Inhabited

/-- A fault at a span of a text's lines, as the built-in compiler reports it. -/
def Diagnostic.fault (lines : List (List Char)) (span : Span) (message : String) : Diagnostic :=
  { range := (Range.ofSpanIn lines span).wrapped
    message
    severity := some 1
    source := some "quill" }

structure Program where
  /-- The script that the program starts from. -/
  root : Option Uri := none
  /-- The version of each script that was compiled. -/
  scripts : Table Uri Version := Table.empty
  diagnostics : Table Uri (List Diagnostic) := Table.empty
  context : Context := Context.empty
deriving DecidableEq, Inhabited

namespace Program

/-- Whether a script was compiled into the program. -/
def covers (program : Program) (uri : Uri) : Bool :=
  program.scripts.contains uri

def versionOf? (program : Program) (uri : Uri) : Option Version :=
  program.scripts.get? uri

def diagnosticsFor (program : Program) (uri : Uri) : List Diagnostic :=
  (program.diagnostics.get? uri).getD []

end Program

end StoryScript
