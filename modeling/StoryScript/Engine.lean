import StoryScript.Config
import StoryScript.Limiter
import StoryScript.Notice
import StoryScript.Rename
import StoryScript.Scheduler

/-!
An editing session, apart from the compiler. The engine keeps the open documents, tells the
compiler of what happens to them and has them compiled: at once when they are opened, at intervals
while they are edited, and once more when the edits stop. It answers questions about symbols from
the newest program it can get.

The engine moves by inputs. Each gives the next engine and, in order, what it does to the outside;
calls of the compiler are answered by later inputs. All that an input leads to, up to where the
compiler or a timer is waited for, is one step: nothing comes between a document's being opened,
changed or closed and what follows from it.
-/

namespace StoryScript

/-- What an engine is asked to do. -/
inductive EngineRequest where
  | openDocument (uri : Uri) (version : Version) (text : String)
  | changeDocument (uri : Uri) (version : Version) (changes : List Change)
  | closeDocument (uri : Uri)
  | compile (uri : Uri) (force : Bool)
  | references (uri : Uri) (position : Position) (filter : SearchFilter)
  | definition (uri : Uri) (position : Position)
  | rename (uri : Uri) (position : Position) (name : String)

/-- What an engine answers. -/
inductive EngineAnswer where
  /-- Whether a document was opened, changed or closed. -/
  | accepted (result : Bool)
  | compiled (outcome : JobOutcome)
  | found (search : Search)
  | defined (location : Option Location)
  | renamed (rename : Option Rename)

/-- Why a document is compiled. -/
inductive JobPurpose where
  /-- A limiter's task acts. -/
  | limited (mode : LimiterMode) (task : Nat)
  /-- A request is to be answered. -/
  | requested (ticket : Nat) (request : EngineRequest)

inductive EngineInput where
  /-- A request comes, with a ticket that its answer will bear. -/
  | request (ticket : Nat) (request : EngineRequest)
  /-- The compiler answers a call. -/
  | answer (call : Nat) (result : Except Failure Program)
  /-- Files are found to be there. -/
  | filesFound (uris : List Uri)
  | fileDeleted (uri : Uri)
  /-- The clock moves on. -/
  | elapse (time : Nat)
  /-- All work in the background ends, and all programs are dropped. -/
  | dispose

inductive EngineEvent where
  /-- The compiler is told of a document. -/
  | noticed (notice : Notice)
  /-- The compiler is called for the program that starts from a script. -/
  | called (call : Nat) (root : Uri)
  /-- The editor is told what is wrong with a script. -/
  | published (uri : Uri) (diagnostics : List Diagnostic) (version : Option Version)
  | answered (ticket : Nat) (answer : EngineAnswer)

structure Engine where
  config : Config
  project : Project
  scheduler : Scheduler := {}
  /-- Limits how often a document is compiled while it is edited. -/
  throttle : Limiter
  /-- Waits for the edits of a document to stop. -/
  debounce : Limiter
  /-- Why the jobs that are not finished were started. -/
  purposes : List (Nat × JobPurpose) := []
  now : Nat := 0

/-- An engine with what it did last. -/
abbrev Engined := Engine × List EngineEvent

namespace Engine

/-- An engine with no documents. -/
def start (config : Config) (annotate : Annotator) : Engine :=
  { config
    project :=
      { store := { annotate, maxSize := config.maxDocumentSize }
        workspace := { extensions := config.scriptExtensions }
        mainScriptNames := config.mainScriptNames }
    throttle := { mode := .throttle, interval := config.throttleMs }
    debounce := { mode := .debounce, interval := config.debounceMs } }

/-- The newest program that a document is in. -/
def program? (engine : Engine) (uri : Uri) : Option Program :=
  (engine.scheduler.cache.snapshot? uri).map Snapshot.program

def limiter (engine : Engine) : LimiterMode → Limiter
  | .throttle => engine.throttle
  | .debounce => engine.debounce

def withLimiter (engine : Engine) (limiter : Limiter) : LimiterMode → Engine
  | .throttle => { engine with throttle := limiter }
  | .debounce => { engine with debounce := limiter }

def search (engine : Engine) (program : Option Program) (filter : SearchFilter) (uri : Uri)
    (position : Position) : Search :=
  Search.find engine.project.store engine.project.workspace program engine.config.builtins filter
    uri position

/-- The program that a question about a document is answered from: that of a compile, or the last
one known if the compile failed. -/
def programFrom (engine : Engine) (uri : Uri) : JobOutcome → Option Program
  | .ok program => program
  | .error _ => engine.program? uri

/-- The answer to a request whose compile is finished. -/
def answerWith (engine : Engine) (outcome : JobOutcome) : EngineRequest → EngineAnswer
  | .openDocument _ _ _ | .changeDocument _ _ _ | .closeDocument _ => .accepted true
  | .compile _ _ => .compiled outcome
  | .references uri position filter =>
    .found (engine.search (engine.programFrom uri outcome) filter uri position)
  | .definition uri position =>
    let program := engine.programFrom uri outcome
    .defined (engine.search program SearchFilter.definitions uri position).locations.head?
  | .rename uri position name =>
    .renamed (Rename.at? engine.project.store engine.project.workspace
      (engine.programFrom uri outcome) engine.config.builtins engine.config.autoRenameAssets uri
      position name)

/-- Goes on after a job: the request is answered, or the limiter's action has ended. -/
def jobFinished (engine : Engine) (job : Nat) (outcome : JobOutcome) : Engined :=
  match engine.purposes.lookup job with
  | none => (engine, [])
  | some purpose =>
    let engine := { engine with purposes := engine.purposes.filter fun entry => entry.1 ≠ job }
    match purpose with
    | .limited mode task =>
      (engine.withLimiter ((engine.limiter mode).ended task engine.now) mode, [])
    | .requested ticket request => (engine, [.answered ticket (engine.answerWith outcome request)])

/-- Takes what the scheduler did. -/
def absorb (engine : Engine) : List SchedulerEvent → Engined
  | [] => (engine, [])
  | event :: rest =>
    let (engine, events) : Engined := match event with
      | .called call root => (engine, [.called call root])
      | .published uri diagnostics version => (engine, [.published uri diagnostics version])
      | .finished job outcome => engine.jobFinished job outcome
    let (engine, later) := engine.absorb rest
    (engine, events ++ later)

/-- Starts a job. -/
def startJob (engine : Engine) (purpose : JobPurpose) (uri : Uri) (force : Bool) : Engined :=
  let job := engine.scheduler.started
  let (scheduler, events) := engine.scheduler.start engine.project uri force
  { engine with scheduler, purposes := (job, purpose) :: engine.purposes }.absorb events

/-- What one of a limiter's tasks does now, if one can do something. -/
def limiterStep? (engine : Engine) (mode : LimiterMode) : Option Engined :=
  let limiter := engine.limiter mode
  match limiter.next? engine.now false with
  | none | some (_, .wait) => none
  | some (task, .stop) => some (engine.withLimiter (limiter.remove task.number) mode, [])
  | some (_, .move task) => some (engine.withLimiter (limiter.put task) mode, [])
  | some (_, .act task) =>
    some ((engine.withLimiter (limiter.put task) mode).startJob (.limited mode task.number)
      task.uri false)

/-- Lets the limiters do what they can do now, in a number of steps. -/
def settleWithin : Nat → Engine → Engined
  | 0, engine => (engine, [])
  | steps + 1, engine =>
    match engine.limiterStep? .throttle <|> engine.limiterStep? .debounce with
    | none => (engine, [])
    | some (engine, events) =>
      let (engine, later) := settleWithin steps engine
      (engine, events ++ later)

/-- How far the limiters are from coming to rest. -/
def limiterWeight (engine : Engine) : Nat :=
  engine.throttle.weight + engine.debounce.weight

/-- Lets the limiters do all they can do now. -/
def settle (engine : Engine) : Engined :=
  engine.settleWithin engine.limiterWeight

/-- Opens a document and has it compiled. -/
def openDocument (engine : Engine) (ticket : Nat) (uri : Uri) (version : Version)
    (text : String) : Engined :=
  let (accepted, store) := engine.project.store.open? uri version text
  let engine := { engine with project := { engine.project with store } }
  if accepted then
    let purpose := .requested ticket (.openDocument uri version text)
    let (engine, events) := engine.startJob purpose uri false
    (engine, .noticed (.opened uri version text) :: events)
  else (engine, [.answered ticket (.accepted false)])

/-- Changes a document and signals that it wants to be compiled. -/
def changeDocument (engine : Engine) (ticket : Nat) (uri : Uri) (version : Version)
    (changes : List Change) : Engined :=
  let (accepted, store) := engine.project.store.change? uri version changes
  let engine := { engine with project := { engine.project with store } }
  if accepted then
    ({ engine with
        throttle := engine.throttle.signal uri
        debounce := engine.debounce.signal uri },
      [.noticed (.changed uri version changes), .answered ticket (.accepted true)])
  else (engine, [.answered ticket (.accepted false)])

/-- Closes a document: its program and its diagnostics go. -/
def closeDocument (engine : Engine) (ticket : Nat) (uri : Uri) : Engined :=
  let (accepted, store) := engine.project.store.close? uri
  let (scheduler, events) := engine.scheduler.forget uri
  let (engine, later) :=
    { engine with
      project := { engine.project with store }
      scheduler
      throttle := engine.throttle.cancel uri
      debounce := engine.debounce.cancel uri }.absorb events
  (engine, [.noticed (.closed uri), .published uri [] none, .answered ticket (.accepted accepted)] ++
    later)

/-- Takes a request. -/
def handleRequest (engine : Engine) (ticket : Nat) (request : EngineRequest) : Engined :=
  match request with
  | .openDocument uri version text => engine.openDocument ticket uri version text
  | .changeDocument uri version changes => engine.changeDocument ticket uri version changes
  | .closeDocument uri => engine.closeDocument ticket uri
  | .compile uri force => engine.startJob (.requested ticket request) uri force
  | .references uri _ _ | .definition uri _ | .rename uri _ _ =>
    engine.startJob (.requested ticket request) uri false

/-- Notes that a file is gone. The program of a script that is not open goes with it. -/
def fileDeleted (engine : Engine) (uri : Uri) : Engined :=
  let workspace := engine.project.workspace.remove uri
  let isDropped :=
    engine.project.workspace.containsScript uri && !engine.project.store.contains uri
  let engine := { engine with project := { engine.project with workspace } }
  if isDropped then
    let (scheduler, events) := engine.scheduler.forget uri
    { engine with scheduler }.absorb events
  else (engine, [])

/-- Takes an input, before the limiters move on. -/
def handle (engine : Engine) : EngineInput → Engined
  | .request ticket request => engine.handleRequest ticket request
  | .answer call result =>
    let (scheduler, events) := engine.scheduler.answer engine.project call result
    { engine with scheduler }.absorb events
  | .filesFound uris =>
    let workspace := engine.project.workspace.addAll uris
    ({ engine with project := { engine.project with workspace } }, [])
  | .fileDeleted uri => engine.fileDeleted uri
  | .elapse time => ({ engine with now := time }, [])
  | .dispose =>
    let (scheduler, events) := engine.scheduler.clear
    { engine with
      scheduler
      throttle := engine.throttle.cancelAll
      debounce := engine.debounce.cancelAll }.absorb events

/-- Takes an input. -/
def step (engine : Engine) (input : EngineInput) : Engined :=
  let (engine, events) := engine.handle input
  let (engine, later) := engine.settle
  (engine, events ++ later)

/-- Takes inputs in turn. -/
def run (engine : Engine) : List EngineInput → Engined
  | [] => (engine, [])
  | input :: rest =>
    let (engine, events) := engine.step input
    let (engine, later) := engine.run rest
    (engine, events ++ later)

/-- The next time at which the engine goes on by itself. -/
def deadline? (engine : Engine) : Option Nat :=
  (engine.throttle.deadline?.toList ++ engine.debounce.deadline?.toList).min?

/-- The range of the symbol that a rename at a position would rename. -/
def renameRange? (engine : Engine) (uri : Uri) (position : Position) : Option Range :=
  Rename.rangeAt? engine.project.store uri position

end Engine

end StoryScript
