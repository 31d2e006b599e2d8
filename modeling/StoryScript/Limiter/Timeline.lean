import StoryScript.Limiter

/-!
A limiter over time. Actions take given times, signals are sent when the clock stands still, and
the clock moves on from one thing that happens to the next. Tasks look at their signals before their
timers.
-/

namespace StoryScript

/-- What happens on a timeline. -/
inductive TimelineEvent where
  | started (uri : Uri) (time : Nat)
  | ended (uri : Uri) (time : Nat)
deriving DecidableEq

/-- An action that is not at its end. -/
structure RunningAction where
  task : Nat
  uri : Uri
  endTime : Nat
deriving DecidableEq, Inhabited

structure Timeline where
  limiter : Limiter
  /-- How long the actions take, in the order in which they start. -/
  durations : Nat → Nat
  now : Nat := 0
  running : List RunningAction := []
  /-- How many actions have started. -/
  runs : Nat := 0

namespace Timeline

/-- The start of a task's action. -/
def started (timeline : Timeline) (task : LimiterTask) : Timeline :=
  let endTime := timeline.now + timeline.durations timeline.runs
  { timeline with
    limiter := timeline.limiter.put task
    running := timeline.running ++ [⟨task.number, task.uri, endTime⟩]
    runs := timeline.runs + 1 }

/-- The end of an action. -/
def ended (timeline : Timeline) (action : RunningAction) : Timeline :=
  { timeline with
    limiter := timeline.limiter.ended action.task timeline.now
    running := timeline.running.filter fun other => other.task ≠ action.task }

/-- What one of the tasks does at the present time, if one can do something. -/
def taskStep? (timeline : Timeline) : Option (Timeline × List TimelineEvent) :=
  match timeline.limiter.next? timeline.now false with
  | none | some (_, .wait) => none
  | some (task, .stop) =>
    some ({ timeline with limiter := timeline.limiter.remove task.number }, [])
  | some (_, .move task) => some ({ timeline with limiter := timeline.limiter.put task }, [])
  | some (_, .act task) => some (timeline.started task, [.started task.uri timeline.now])

/-- The end of an action whose time has come, if there is one. -/
def actionEnd? (timeline : Timeline) : Option (Timeline × List TimelineEvent) :=
  (timeline.running.find? fun action => action.endTime ≤ timeline.now).map fun action =>
    (timeline.ended action, [.ended action.uri timeline.now])

/-- One thing that can happen at the present time. -/
def step? (timeline : Timeline) : Option (Timeline × List TimelineEvent) :=
  timeline.actionEnd? <|> timeline.taskStep?

/-- When something happens next, if nothing can happen now. -/
def deadline? (timeline : Timeline) : Option Nat :=
  (timeline.limiter.deadline?.toList ++ timeline.running.map RunningAction.endTime).min?

/-- One thing that happens until some time, now or at the next time at which something can. -/
def stepUntil? (timeline : Timeline) (time : Nat) : Option (Timeline × List TimelineEvent) :=
  timeline.step? <|>
    match timeline.deadline? with
    | none => none
    | some next => if next ≤ time then { timeline with now := max timeline.now next }.step? else none

/-- What happens until some time, in a number of steps. -/
def advanceWithin (time : Nat) : Nat → Timeline → Timeline × List TimelineEvent
  | 0, timeline => ({ timeline with now := time }, [])
  | steps + 1, timeline =>
    match timeline.stepUntil? time with
    | none => ({ timeline with now := time }, [])
    | some (timeline, events) =>
      let (timeline, later) := timeline.advanceWithin time steps
      (timeline, events ++ later)

/-- Moves the clock on, by way of all that happens until then. -/
def advance (timeline : Timeline) (time : Nat) : Timeline × List TimelineEvent :=
  timeline.advanceWithin time timeline.limiter.weight

/-- Sends signals for a document. -/
def signal (timeline : Timeline) (uri : Uri) : Nat → Timeline
  | 0 => timeline
  | count + 1 => { timeline with limiter := timeline.limiter.signal uri }.signal uri count

end Timeline

end StoryScript
