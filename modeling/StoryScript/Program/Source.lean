import StoryScript.Program.Basic
import StoryScript.Uri.Parse

/-!
The scripts of a program. Starting from a root, included scripts are loaded breadth first, each
once, and at most `maxScripts` of them.
-/

namespace StoryScript

/-- The text of a script, at some version. -/
structure Source where
  version : Version
  text : String
deriving DecidableEq, Inhabited

/-- Finds the text of a script. -/
abbrev Loader := Uri → Option Source

/-- Finds what a script's text declares, uses and includes. -/
abbrev Annotator := String → Annotations

namespace Program

/-- A script that was loaded. -/
structure Script where
  uri : Uri
  version : Version
  text : String
  annotations : Annotations
deriving DecidableEq, Inhabited

/-- The most scripts that one program may name. -/
def maxScripts : Nat := 4096

/-- A place where a script is included. -/
structure Inclusion where
  /-- The including script. -/
  script : Script
  span : Span
  path : String
deriving DecidableEq, Inhabited

/-- A script that is to be loaded, and where it was first included. -/
structure Pending where
  uri : Uri
  inclusion : Inclusion
deriving DecidableEq, Inhabited

/-- What remains of the walk over the included scripts: those still to be loaded, and all that
have been named so far. -/
structure Frontier where
  queue : List Pending
  seen : List Uri

/-- Names the scripts that a list of includes leads to. Once the limit is reached nothing more is
named. -/
def Frontier.extend (script : Script) : Frontier → List (Annotated Include) → Frontier
  | frontier, [] => frontier
  | frontier, item :: rest =>
    match script.uri.resolve? item.value.path with
    | none => frontier.extend script rest
    | some target =>
      if maxScripts ≤ frontier.seen.length then frontier
      else if target ∈ frontier.seen then frontier.extend script rest
      else
        Frontier.extend script
          { queue := frontier.queue ++ [⟨target, ⟨script, item.span, item.value.path⟩⟩]
            seen := target :: frontier.seen } rest

/-- The steps that a walk can still take: each one loads a named script, and names are limited. -/
def Frontier.bound (frontier : Frontier) : Nat :=
  frontier.queue.length + (maxScripts - frontier.seen.length)

theorem Frontier.bound_extend (script : Script) (frontier : Frontier)
    (includes : List (Annotated Include)) :
    (frontier.extend script includes).bound ≤ frontier.bound := by
  fun_induction Frontier.extend script frontier includes with
  | case1 => exact Nat.le_refl _
  | case2 _ _ _ _ ih => exact ih
  | case3 => exact Nat.le_refl _
  | case4 _ _ _ _ _ _ _ ih => exact ih
  | case5 frontier item rest target _ hlimit _ ih =>
    refine Nat.le_trans ih ?_
    simp only [Frontier.bound, List.length_append, List.length_cons, List.length_nil]
    omega

/-- What a walk over the included scripts finds. -/
structure Collected where
  /-- The scripts in the order in which they were loaded. -/
  scripts : List Script
  /-- The includes whose script could not be loaded. -/
  missing : List Inclusion

/-- The script at a uri, if it can be loaded. -/
def load? (load : Loader) (annotate : Annotator) (uri : Uri) : Option Script :=
  (load uri).map fun source => ⟨uri, source.version, source.text, annotate source.text⟩

/-- Loads the scripts that a walk has still to visit. -/
def collect (load : Loader) (annotate : Annotator) (queue : List Pending) (seen : List Uri) :
    Collected :=
  match queue with
  | [] => ⟨[], []⟩
  | pending :: queue =>
    match load? load annotate pending.uri with
    | none =>
      let rest := collect load annotate queue seen
      { rest with missing := pending.inclusion :: rest.missing }
    | some script =>
      let frontier := Frontier.extend script ⟨queue, seen⟩ script.annotations.includes.items
      let rest := collect load annotate frontier.queue frontier.seen
      { rest with scripts := script :: rest.scripts }
termination_by queue.length + (maxScripts - seen.length)
decreasing_by
  · simp only [List.length_cons]; omega
  · have h := Frontier.bound_extend script ⟨queue, seen⟩ script.annotations.includes.items
    simp only [Frontier.bound] at h
    simp only [List.length_cons]
    omega

/-- All scripts of a program, from its root on; none if the root cannot be loaded. -/
def collectFrom? (load : Loader) (annotate : Annotator) (root : Uri) : Option Collected :=
  (load? load annotate root).map fun script =>
    let frontier := Frontier.extend script ⟨[], [root]⟩ script.annotations.includes.items
    let rest := collect load annotate frontier.queue frontier.seen
    { rest with scripts := script :: rest.scripts }

end Program

end StoryScript
