import StoryScript.Uri.Basic

/-!
Limits on how often something is done for a document. A throttle acts at once and then at most
once in each interval, as long as signals keep coming; a debounce acts when an interval has passed
without a signal. Each document that signals gets a task of its own, which lives until it is
cancelled and has nothing left to do.
-/

namespace StoryScript

inductive LimiterMode where
  | throttle
  | debounce
deriving DecidableEq, Inhabited

/-- What a task is doing. -/
inductive TaskPhase where
  /-- Waiting for a signal. -/
  | idle
  /-- Acting. -/
  | acting
  /-- Holding back, after an action, until some time. -/
  | resting (time : Nat)
  /-- Waiting for signals to stop until some time. -/
  | settling (time : Nat)
deriving DecidableEq, Inhabited

/-- When the phase ends by itself. -/
def TaskPhase.deadline? : TaskPhase → Option Nat
  | idle | acting => none
  | resting time | settling time => some time

structure LimiterTask where
  number : Nat
  uri : Uri
  phase : TaskPhase := .idle
  /-- Signals that were not looked at yet. -/
  signals : Nat := 0
  /-- Whether no more signals can come. -/
  isClosed : Bool := false
deriving DecidableEq, Inhabited

/-- What becomes of a task when it moves on. -/
inductive TaskStep where
  /-- Nothing happens until a signal, the end of the action or some time. -/
  | wait
  | move (task : LimiterTask)
  /-- The action starts. -/
  | act (task : LimiterTask)
  | stop

namespace LimiterTask

/-- What a task does next at some time, if anything. One that waits for signals to stop looks at its
timer first or at its signals first, and both may have come. -/
def next (mode : LimiterMode) (interval now : Nat) (timerFirst : Bool) (task : LimiterTask) :
    TaskStep :=
  match task.phase with
  | .acting => .wait
  | .idle =>
    if 0 < task.signals then
      let task := { task with signals := task.signals - 1 }
      match mode with
      | .throttle => .act { task with phase := .acting }
      | .debounce => .move { task with phase := .settling (now + interval) }
    else if task.isClosed then .stop
    else .wait
  | .resting time =>
    if now < time then .wait
    else if 0 < task.signals then .act { task with phase := .acting, signals := 0 }
    else .move { task with phase := .idle }
  | .settling time =>
    if time ≤ now ∧ (timerFirst ∨ task.signals = 0 ∧ !task.isClosed) then
      .act { task with phase := .acting }
    else if 0 < task.signals then
      .move { task with phase := .settling (now + interval), signals := task.signals - 1 }
    else if task.isClosed then .stop
    else .wait

/-- How far a task is from coming to rest: every step of it that no signal causes makes this
less. -/
def weight (task : LimiterTask) : Nat :=
  6 * task.signals + match task.phase with
    | .idle => 1
    | .resting _ => 2
    | .acting => 3
    | .settling _ => 6

/-- The end of the task's action. -/
def ended (mode : LimiterMode) (interval now : Nat) (task : LimiterTask) : LimiterTask :=
  match mode with
  | .throttle => { task with phase := .resting (now + interval) }
  | .debounce => { task with phase := .idle }

end LimiterTask

structure Limiter where
  mode : LimiterMode
  interval : Nat
  tasks : List LimiterTask := []
  /-- How many tasks have been started. -/
  started : Nat := 0

namespace Limiter

/-- The documents whose tasks take signals. -/
def active (limiter : Limiter) : List Uri :=
  (limiter.tasks.filter fun task => !task.isClosed).map LimiterTask.uri

/-- Signals that a document wants the action. Its task is started if it has none. -/
def signal (limiter : Limiter) (uri : Uri) : Limiter :=
  if uri ∈ limiter.active then
    { limiter with
      tasks := limiter.tasks.map fun task =>
        if task.uri = uri ∧ !task.isClosed then { task with signals := task.signals + 1 }
        else task }
  else
    { limiter with
      tasks := limiter.tasks ++ [{ number := limiter.started, uri, signals := 1 }]
      started := limiter.started + 1 }

/-- Takes no more signals for a document. -/
def cancel (limiter : Limiter) (uri : Uri) : Limiter :=
  { limiter with
    tasks := limiter.tasks.map fun task =>
      if task.uri = uri then { task with isClosed := true } else task }

/-- Takes no more signals for any document. -/
def cancelAll (limiter : Limiter) : Limiter :=
  { limiter with tasks := limiter.tasks.map fun task => { task with isClosed := true } }

/-- The end of a task's action. -/
def ended (limiter : Limiter) (number now : Nat) : Limiter :=
  { limiter with
    tasks := limiter.tasks.map fun task =>
      if task.number = number then task.ended limiter.mode limiter.interval now else task }

/-- The first task that can do something now, with what it does. -/
def next? (limiter : Limiter) (now : Nat) (timerFirst : Bool) : Option (LimiterTask × TaskStep) :=
  limiter.tasks.findSome? fun task =>
    match task.next limiter.mode limiter.interval now timerFirst with
    | .wait => none
    | step => some (task, step)

/-- Puts a task in place of the one with its number. -/
def put (limiter : Limiter) (task : LimiterTask) : Limiter :=
  { limiter with
    tasks := limiter.tasks.map fun other => if other.number = task.number then task else other }

/-- Removes a task. -/
def remove (limiter : Limiter) (number : Nat) : Limiter :=
  { limiter with tasks := limiter.tasks.filter fun task => task.number ≠ number }

/-- How far the tasks are from coming to rest. -/
def weight (limiter : Limiter) : Nat :=
  limiter.tasks.foldr (fun task total => task.weight + total) 0

/-- The next time at which a task goes on by itself. -/
def deadline? (limiter : Limiter) : Option Nat :=
  (limiter.tasks.filterMap fun task => task.phase.deadline?).min?

end Limiter

end StoryScript
