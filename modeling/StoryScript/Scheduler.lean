import StoryScript.Cache
import StoryScript.Store
import StoryScript.Workspace

/-!
Compiling documents on demand. A `Scheduler` turns requests for compiles into as few calls of the
compiler as it can: a job is answered from the cache, waits for another job's compile, or compiles
the project's main script and, if that does not cover the document, the document by itself. Calls
are answered later and in any order.

What a job does from one call of the compiler to the next is one step here, and so are the reports
that it ends with. `plan` is the part of a start that comes after the document was read, by itself.
-/

namespace StoryScript

/-- What a job is waiting for. -/
inductive JobPhase where
  /-- The compile of another job. -/
  | joined (ticket : Nat)
  /-- The program of the project's main script. -/
  | compilingMain (call : Nat)
  /-- The program of the document by itself; the main script's program does not cover it. -/
  | compilingAlone (call : Nat) (main : Option Program)
deriving DecidableEq, Inhabited

/-- A compile that is not finished. -/
structure Job where
  number : Nat
  uri : Uri
  phase : JobPhase
deriving DecidableEq, Inhabited

/-- The call of the compiler that a job waits for. -/
def Job.call? (job : Job) : Option Nat :=
  match job.phase with
  | .joined _ => none
  | .compilingMain call | .compilingAlone call _ => some call

/-- The result of a job: no program if the document is not open. -/
abbrev JobOutcome := Except Failure (Option Program)

/-- What a scheduler does to the outside. -/
inductive SchedulerEvent where
  /-- The compiler is called for the program that starts from a script. -/
  | called (call : Nat) (root : Uri)
  /-- The editor is told what is wrong with a script. -/
  | published (uri : Uri) (diagnostics : List Diagnostic) (version : Option Version)
  | finished (job : Nat) (outcome : JobOutcome)

/-- The open documents and known files that a scheduler works on. -/
structure Project where
  store : Store
  workspace : Workspace
  mainScriptNames : List String

/-- The main script of the project that a document belongs to. -/
def Project.mainScript? (project : Project) (uri : Uri) : Option Uri :=
  StoryScript.mainScript? project.mainScriptNames
    (fun candidate => project.store.contains candidate || project.workspace.containsScript candidate)
    uri

/-- What a job reads before it starts: the version of its document. -/
structure Reading where
  uri : Uri
  force : Bool
  version : Version
deriving DecidableEq, Inhabited

/-- Reads a document that is to be compiled, if it is open. -/
def Project.read? (project : Project) (uri : Uri) (force : Bool) : Option Reading :=
  (project.store.version? uri).map fun version => { uri, force, version }

structure Scheduler where
  cache : Cache := Cache.empty
  jobs : List Job := []
  /-- How many jobs have been started. -/
  started : Nat := 0
  /-- How many times the compiler has been called. -/
  calls : Nat := 0
deriving Inhabited

/-- A scheduler with what it did last. -/
abbrev Scheduled := Scheduler × List SchedulerEvent

namespace Scheduler

/-- Delivers what tickets waited for: their jobs are finished. -/
def deliver (scheduler : Scheduler) (settled : List Settlement) : Scheduled :=
  let outcome? (job : Job) : Option SchedulerEvent :=
    match job.phase with
    | .joined ticket =>
      (settled.find? fun settlement => settlement.ticket = ticket).map fun settlement =>
        .finished job.number (settlement.result.map fun snapshot => some snapshot.program)
    | _ => none
  ({ scheduler with jobs := scheduler.jobs.filter fun job => (outcome? job).isNone },
    scheduler.jobs.filterMap outcome?)

/-- Forgets a job. -/
def drop (scheduler : Scheduler) (number : Nat) : Scheduler :=
  { scheduler with jobs := scheduler.jobs.filter fun job => job.number ≠ number }

/-- Calls the compiler for a job. -/
def call (scheduler : Scheduler) (number : Nat) (uri root : Uri)
    (phase : Nat → JobPhase) : Scheduled :=
  let job : Job := ⟨number, uri, phase scheduler.calls⟩
  let others := (scheduler.drop number).jobs
  ({ scheduler with jobs := others ++ [job], calls := scheduler.calls + 1 },
    [.called scheduler.calls root])

/-- What the editor is told of a script: its diagnostics in a program, with the version they are
for if the script is open. -/
def report (project : Project) (cache : Cache) (program : Program) (uri : Uri) : SchedulerEvent :=
  .published uri (program.diagnosticsFor uri)
    (if project.store.contains uri then cache.compiled? uri else none)

/-- The scripts that are told of after a compile, each with the program that tells of it: those of
the later program first, each script once, and a document that was closed in the meantime not at
all. -/
def reportedScripts (project : Project) (programs : List Program) (requested : Uri)
    (program : Program) : List (Uri × Program) :=
  let sources := programs.reverse.flatMap fun source =>
    source.scripts.keys.map fun uri => (uri, source)
  let listed := (sources ++ [(requested, program)]).foldl (fun (kept : List (Uri × Program)) entry =>
    if kept.any fun earlier => earlier.1 = entry.1 then kept else kept ++ [entry]) []
  listed.filter fun entry => entry.1 ≠ requested || project.store.contains requested

/-- Finishes a job that compiled: its programs' scripts are told of, all of them at once. (An editor
that is slow to take reports may get other jobs' reports between them.) -/
def finish (scheduler : Scheduler) (project : Project) (job : Job) (programs : List Program)
    (program : Program) : Scheduled :=
  let reports := (reportedScripts project programs job.uri program).map fun (uri, source) =>
    report project scheduler.cache source uri
  (scheduler.drop job.number, reports ++ [.finished job.number (.ok (some program))])

/-- Records a completed program, and delivers it to who waits for it. -/
def complete (scheduler : Scheduler) (project : Project) (program : Program)
    (requested : Option Uri) : Scheduled :=
  let (settled, cache) := scheduler.cache.complete program requested project.store.contains
  { scheduler with cache }.deliver settled

/-- Goes on with a job whose main script has been compiled. -/
def withMain (scheduler : Scheduler) (project : Project) (job : Job) (program : Program) :
    Scheduled :=
  let isOpen := project.store.contains job.uri
  let isCovered := program.covers job.uri && isOpen
  let (scheduler, delivered) :=
    scheduler.complete project program (if isCovered then some job.uri else none)
  let (scheduler, events) :=
    if isCovered || !isOpen then scheduler.finish project job [program] program
    else scheduler.call job.number job.uri job.uri (.compilingAlone · (some program))
  (scheduler, delivered ++ events)

/-- Ends a job whose document has been compiled by itself. -/
def withAlone (scheduler : Scheduler) (project : Project) (job : Job) (main : Option Program)
    (program : Program) : Scheduled :=
  let requested := if project.store.contains job.uri then some job.uri else none
  let (scheduler, delivered) := scheduler.complete project program requested
  let (scheduler, events) := scheduler.finish project job (main.toList ++ [program]) program
  (scheduler, delivered ++ events)

/-- Ends a job whose call of the compiler failed. -/
def fail (scheduler : Scheduler) (job : Job) (failure : Failure) : Scheduled :=
  let (settled, cache) := scheduler.cache.abandon job.uri
  let (scheduler, delivered) := { scheduler.drop job.number with cache }.deliver settled
  (scheduler, delivered ++ [.finished job.number (.error failure)])

/-- Starts a job for a document that has been read. `changed` says whether any open document has changed
since it was compiled. -/
def plan (scheduler : Scheduler) (project : Project) (reading : Reading) (changed : Bool) :
    Scheduled :=
  let number := scheduler.started
  let uri := reading.uri
  let (plan, cache) := scheduler.cache.plan uri reading.version reading.force changed
  let scheduler := { scheduler with cache, started := number + 1 }
  match plan with
  | .cached snapshot => (scheduler, [.finished number (.ok (some snapshot.program))])
  | .join ticket =>
    ({ scheduler with jobs := scheduler.jobs ++ [⟨number, uri, .joined ticket⟩] }, [])
  | .compile =>
    match project.mainScript? uri with
    | some main => scheduler.call number uri main .compilingMain
    | none => scheduler.call number uri uri (.compilingAlone · none)

/-- Starts a job that compiles a document. -/
def start (scheduler : Scheduler) (project : Project) (uri : Uri) (force : Bool) : Scheduled :=
  match project.read? uri force with
  | none =>
    ({ scheduler with started := scheduler.started + 1 },
      [.finished scheduler.started (.ok none)])
  | some reading =>
    scheduler.plan project reading (scheduler.cache.anyChanged project.store.versions)

/-- Answers a call of the compiler. A call that no job waits for is passed over. -/
def answer (scheduler : Scheduler) (project : Project) (call : Nat)
    (result : Except Failure Program) : Scheduled :=
  match scheduler.jobs.find? fun job => job.call? = some call with
  | none => (scheduler, [])
  | some job =>
    match result, job.phase with
    | .error failure, _ => scheduler.fail job failure
    | .ok program, .compilingAlone _ main => scheduler.withAlone project job main program
    | .ok program, _ => scheduler.withMain project job program

/-- Whether a call of the compiler waits for its answer. -/
def awaits (scheduler : Scheduler) (call : Nat) : Bool :=
  scheduler.jobs.any fun job => job.call? = some call

/-- Forgets a document, which has been closed. -/
def forget (scheduler : Scheduler) (uri : Uri) : Scheduled :=
  let (settled, cache) := scheduler.cache.remove uri
  { scheduler with cache }.deliver settled

/-- Forgets all documents. -/
def clear (scheduler : Scheduler) : Scheduled :=
  let (settled, cache) := scheduler.cache.clear
  { scheduler with cache }.deliver settled

end Scheduler

end StoryScript
