import Mathlib.Logic.Relation
import StoryScript.Engine
import StoryScript.Proofs.Store

/-!
What an engine can do to the documents it has open and to its scheduler. A `Bench` is that part of
an engine, and a `Bench.Move` one of the few ways in which it changes; limiters, purposes and the
clock only decide which moves are made (`Engine.moves_run`).

A move is made at once. `Threads` are a bench at which compiles are started by other threads too, whose
moves may come between the two halves of such a start.
-/

namespace StoryScript

variable (e : Engine)

/-- The part of an engine that compiles depend on. -/
structure Bench where
  project : Project
  scheduler : Scheduler

namespace Bench

def store (b : Bench) : Store :=
  b.project.store

def cache (b : Bench) : Cache :=
  b.scheduler.cache

def withStore (b : Bench) (store : Store) : Bench :=
  { b with project := { b.project with store } }

/-- A change of a bench that an engine makes at once. -/
inductive Move : Bench → Bench → Prop
  | opened (bench : Bench) (uri : Uri) (version : Version) (text : String) :
      Move bench (bench.withStore (bench.store.open? uri version text).2)
  | changed (bench : Bench) (uri : Uri) (version : Version) (changes : List Change) :
      Move bench (bench.withStore (bench.store.change? uri version changes).2)
  | closed (bench : Bench) (uri : Uri) :
      Move bench { bench.withStore (bench.store.close? uri).2 with
        scheduler := (bench.scheduler.forget uri).1 }
  | indexed (bench : Bench) (workspace : Workspace) :
      Move bench { bench with project := { bench.project with workspace } }
  | deleted (bench : Bench) (uri : Uri) (h : bench.store.contains uri = false) :
      Move bench { bench with scheduler := (bench.scheduler.forget uri).1 }
  | cleared (bench : Bench) : Move bench { bench with scheduler := bench.scheduler.clear.1 }
  | started (bench : Bench) (uri : Uri) (force : Bool) :
      Move bench { bench with scheduler := (bench.scheduler.start bench.project uri force).1 }
  | answered (bench : Bench) (call : Nat) (result : Except Failure Program) :
      Move bench { bench with scheduler := (bench.scheduler.answer bench.project call result).1 }

/-- Moves in turn. -/
def Moves : Bench → Bench → Prop :=
  Relation.ReflTransGen Move

end Bench

namespace Engine

open Bench

def bench (e : Engine) : Bench :=
  ⟨e.project, e.scheduler⟩

theorem bench_withLimiter (l : Limiter) (m : LimiterMode) :
    (e.withLimiter l m).bench = e.bench := by
  cases m <;> rfl

theorem bench_jobFinished (job : Nat) (o : JobOutcome) :
    (e.jobFinished job o).1.bench = e.bench := by
  unfold jobFinished
  cases e.purposes.lookup job with
  | none => rfl
  | some p =>
    cases p with
    | limited m tk => exact bench_withLimiter _ _ _
    | requested t r => rfl

/-- What the scheduler did is only passed on. -/
theorem bench_absorb (es : List SchedulerEvent) : (e.absorb es).1.bench = e.bench := by
  induction es generalizing e with
  | nil => rfl
  | cons ev tl ih =>
    cases ev with
    | called call r => exact ih e
    | published u diagnostics v => exact ih e
    | finished job o => exact (ih _).trans (bench_jobFinished e job o)

theorem move_startJob (p : JobPurpose) (u : Uri) (f : Bool) :
    Move e.bench (e.startJob p u f).1.bench := by
  have h := Move.started e.bench u f
  rwa [startJob, bench_absorb]

theorem moves_limiterStep {e : Engine} {m : LimiterMode} {n : Engined}
    (h : e.limiterStep? m = some n) : Moves e.bench n.1.bench := by
  unfold limiterStep? at h
  dsimp only at h
  split at h
  · cases h
  · cases h
  · obtain rfl := Option.some.inj h
    rw [bench_withLimiter]
    exact .refl
  · obtain rfl := Option.some.inj h
    rw [bench_withLimiter]
    exact .refl
  · obtain rfl := Option.some.inj h
    refine .single ?_
    rw [← bench_withLimiter e ((e.limiter m).put _) m]
    exact move_startJob _ _ _ _

theorem moves_settleWithin (ss : Nat) (e : Engine) : Moves e.bench (settleWithin ss e).1.bench := by
  induction ss generalizing e with
  | zero => exact .refl
  | succ ss ih =>
    unfold settleWithin
    cases hs : e.limiterStep? .throttle <|> e.limiterStep? .debounce with
    | none => exact .refl
    | some n =>
      have hm : Moves e.bench n.1.bench := by
        cases ht : e.limiterStep? .throttle with
        | some x =>
          rw [ht] at hs
          obtain rfl := Option.some.inj hs
          exact moves_limiterStep ht
        | none =>
          rw [ht] at hs
          exact moves_limiterStep hs
      exact hm.trans (ih n.1)

/-! ### Inputs -/

def withStore (e : Engine) (store : Store) : Engine :=
  { e with project := { e.project with store } }

def withWorkspace (e : Engine) (workspace : Workspace) : Engine :=
  { e with project := { e.project with workspace } }

/-- An engine with a document opened, which is not compiled yet. -/
def opening (e : Engine) (u : Uri) (v : Version) (t : String) : Engine :=
  e.withStore (e.project.store.open? u v t).2

/-- An engine with one more job. -/
def withJob (e : Engine) (p : JobPurpose) (u : Uri) (f : Bool) : Engine :=
  { e with
    scheduler := (e.scheduler.start e.project u f).1
    purposes := (e.scheduler.started, p) :: e.purposes }

/-- How an engine takes an input: what it does to the outside at once, what it becomes, and what its
scheduler has done, which it takes next. -/
inductive Takes (e : Engine) :
    EngineInput → List EngineEvent → Engine → List SchedulerEvent → Prop
  | opened (ticket : Nat) (uri : Uri) (version : Version) (text : String)
      (h : (e.project.store.open? uri version text).1 = true) :
      Takes e (.request ticket (.openDocument uri version text))
        [.noticed (.opened uri version text)]
        ((e.opening uri version text).withJob
          (.requested ticket (.openDocument uri version text)) uri false)
        (e.scheduler.start (e.opening uri version text).project uri false).2
  | changed (ticket : Nat) (uri : Uri) (version : Version) (changes : List Change)
      (h : (e.project.store.change? uri version changes).1 = true) :
      Takes e (.request ticket (.changeDocument uri version changes))
        [.noticed (.changed uri version changes), .answered ticket (.accepted true)]
        { e.withStore (e.project.store.change? uri version changes).2 with
          throttle := e.throttle.signal uri
          debounce := e.debounce.signal uri } []
  | refused (ticket : Nat) (request : EngineRequest) (store : Store)
      (hmove : Move e.bench (e.withStore store).bench)
      (hdocs : store.documents = e.project.store.documents) :
      Takes e (.request ticket request) [.answered ticket (.accepted false)] (e.withStore store) []
  | closed (ticket : Nat) (uri : Uri) :
      Takes e (.request ticket (.closeDocument uri))
        [.noticed (.closed uri), .published uri [] none,
          .answered ticket (.accepted (e.project.store.close? uri).1)]
        { e.withStore (e.project.store.close? uri).2 with
          scheduler := (e.scheduler.forget uri).1
          throttle := e.throttle.cancel uri
          debounce := e.debounce.cancel uri } (e.scheduler.forget uri).2
  | started (ticket : Nat) (request : EngineRequest) (uri : Uri) (force : Bool) :
      Takes e (.request ticket request) [] (e.withJob (.requested ticket request) uri force)
        (e.scheduler.start e.project uri force).2
  | answered (call : Nat) (result : Except Failure Program) :
      Takes e (.answer call result) []
        { e with scheduler := (e.scheduler.answer e.project call result).1 }
        (e.scheduler.answer e.project call result).2
  | found (uris : List Uri) :
      Takes e (.filesFound uris) [] (e.withWorkspace (e.project.workspace.addAll uris)) []
  | deleted (uri : Uri) (h : e.project.store.contains uri = false) :
      Takes e (.fileDeleted uri) []
        { e.withWorkspace (e.project.workspace.remove uri) with
          scheduler := (e.scheduler.forget uri).1 } (e.scheduler.forget uri).2
  | unlisted (uri : Uri) :
      Takes e (.fileDeleted uri) [] (e.withWorkspace (e.project.workspace.remove uri)) []
  | elapsed (time : Nat) : Takes e (.elapse time) [] { e with now := time } []
  | disposed :
      Takes e .dispose []
        { e with
          scheduler := e.scheduler.clear.1
          throttle := e.throttle.cancelAll
          debounce := e.debounce.cancelAll } e.scheduler.clear.2

theorem takes_handle (input : EngineInput) :
    ∃ front next events, e.Takes input front next events ∧
      e.handle input = ((next.absorb events).1, front ++ (next.absorb events).2) := by
  cases input with
  | request ticket request =>
    cases request with
    | openDocument uri version text =>
      simp only [handle, handleRequest, openDocument]
      cases ha : (e.project.store.open? uri version text).1 with
      | true =>
        refine ⟨_, _, _, .opened ticket uri version text ha, ?_⟩
        rw [if_pos rfl, startJob]
        rfl
      | false =>
        exact ⟨_, _, _, .refused ticket _ _ (.opened e.bench uri version text)
          (Store.documents_open?_of_refused ha), rfl⟩
    | changeDocument uri version changes =>
      simp only [handle, handleRequest, changeDocument]
      cases ha : (e.project.store.change? uri version changes).1 with
      | true => exact ⟨_, _, _, .changed ticket uri version changes ha, rfl⟩
      | false =>
        exact ⟨_, _, _, .refused ticket _ _ (.changed e.bench uri version changes)
          (Store.documents_change?_of_refused ha), rfl⟩
    | closeDocument uri => exact ⟨_, _, _, .closed ticket uri, rfl⟩
    | compile uri force => exact ⟨_, _, _, .started ticket _ uri force, rfl⟩
    | references uri position filter => exact ⟨_, _, _, .started ticket _ uri false, rfl⟩
    | definition uri position => exact ⟨_, _, _, .started ticket _ uri false, rfl⟩
    | rename uri position name => exact ⟨_, _, _, .started ticket _ uri false, rfl⟩
  | answer call result => exact ⟨_, _, _, .answered call result, rfl⟩
  | filesFound uris => exact ⟨_, _, _, .found uris, rfl⟩
  | fileDeleted uri =>
    simp only [handle, fileDeleted]
    split_ifs with hd
    · have hc : e.project.store.contains uri = false := by
        simpa using (Bool.and_eq_true_iff.mp hd).2
      exact ⟨_, _, _, .deleted uri hc, rfl⟩
    · exact ⟨_, _, _, .unlisted uri, rfl⟩
  | elapse time => exact ⟨_, _, _, .elapsed time, rfl⟩
  | dispose => exact ⟨_, _, _, .disposed, rfl⟩

theorem Takes.moves {e next : Engine} {i : EngineInput} {front : List EngineEvent}
    {es : List SchedulerEvent} (h : e.Takes i front next es) :
    Moves e.bench next.bench := by
  cases h with
  | opened t u v tx _ =>
    have ho := Move.opened e.bench u v tx
    exact (Relation.ReflTransGen.single ho).tail (.started _ u false)
  | changed t u v cs _ => exact .single (.changed e.bench u v cs)
  | refused t r store hm _ => exact .single hm
  | closed t u => exact .single (.closed e.bench u)
  | started t r u force => exact .single (.started e.bench u force)
  | answered call res => exact .single (.answered e.bench call res)
  | found uris => exact .single (.indexed e.bench _)
  | deleted u hc =>
    have hi := Move.indexed e.bench (e.project.workspace.remove u)
    exact (Relation.ReflTransGen.single hi).tail (.deleted _ u hc)
  | unlisted u => exact .single (.indexed e.bench _)
  | elapsed time => exact .refl
  | disposed => exact .single (.cleared e.bench)

theorem moves_handle (i : EngineInput) : Moves e.bench (e.handle i).1.bench := by
  obtain ⟨l, n, es, ht, heq⟩ := e.takes_handle i
  rw [heq, bench_absorb]
  exact ht.moves

theorem moves_step (i : EngineInput) : Moves e.bench (e.step i).1.bench :=
  (moves_handle e i).trans (moves_settleWithin _ _)

theorem moves_run (is : List EngineInput) : Moves e.bench (e.run is).1.bench := by
  induction is generalizing e with
  | nil => exact .refl
  | cons i r ih => exact (moves_step e i).trans (ih _)

end Engine

/-- Whether a cache keeps a state of a document. -/
def Cache.knows (cache : Cache) (uri : Uri) : Bool :=
  (cache.state? uri).isSome

/-- A bench at which several threads start compiles. Such a compile reads its document, and is planned
by what it has read. -/
structure Threads extends Bench where
  /-- What was read for compiles that are not planned yet. -/
  readings : List Reading := []
  /-- The documents that a compile was planned of while they were not open, and that the cache has not
  forgotten since. -/
  late : List Uri := []

namespace Threads

/-- Goes on with a bench. -/
def put (threads : Threads) (bench : Bench) : Threads :=
  { threads with toBench := bench, late := threads.late.filter bench.cache.knows }

/-- Plans a compile by what was read for it. -/
def plan (threads : Threads) (reading : Reading) (changed : Bool) : Threads :=
  let isOpen := threads.store.contains reading.uri
  let threads := { threads with
    readings := threads.readings.erase reading
    late := if isOpen then threads.late else reading.uri :: threads.late }
  threads.put { threads.toBench with
    scheduler := (threads.scheduler.plan threads.project reading changed).1 }

/-- A step of one of the threads. What is read of the other documents for a compile may be outdated
too, so nothing is said of whether any has changed. -/
inductive Step (threads : Threads) : Threads → Prop
  | move {bench : Bench} (h : Bench.Move threads.toBench bench) : Step threads (threads.put bench)
  | read (uri : Uri) (force : Bool) {reading : Reading}
      (h : threads.project.read? uri force = some reading) :
      Step threads { threads with readings := reading :: threads.readings }
  | plan {reading : Reading} (h : reading ∈ threads.readings) (changed : Bool) :
      Step threads (threads.plan reading changed)

/-- The steps of all threads from a fresh engine on, in any order. -/
inductive Reached (config : Config) (annotate : Annotator) : Threads → Prop
  | start : Reached config annotate { toBench := (Engine.start config annotate).bench }
  | step {threads after : Threads} (h : Reached config annotate threads)
      (hs : threads.Step after) : Reached config annotate after

/-- Every run of an engine is one of threads none of which is interrupted. -/
theorem reached_run (config : Config) (annotate : Annotator) (inputs : List EngineInput) :
    Reached config annotate { toBench := ((Engine.start config annotate).run inputs).1.bench } := by
  generalize hlast : ((Engine.start config annotate).run inputs).1.bench = last
  have hmoves : Bench.Moves (Engine.start config annotate).bench last :=
    hlast ▸ Engine.moves_run _ inputs
  clear hlast
  induction hmoves with
  | refl => exact .start
  | tail _ hmove ih => exact .step ih (.move hmove)

end Threads

end StoryScript
