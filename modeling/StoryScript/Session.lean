import StoryScript.Channel
import StoryScript.Engine
import StoryScript.Worker

/-!
An engine with its compiler. The engine's notices and calls go through a channel to a peer, which
answers at once or later or not at all, and the answers come back to the engine.
-/

namespace StoryScript

/-- How a compiler takes messages: its next state and what it says, or nothing if it goes away. -/
abbrev Peer (σ : Type) := σ → Message → Option (σ × List Message)

/-- The built-in compiler, which never goes away by itself. -/
def Worker.peer (readFile : Uri → Option String) : Peer Worker := fun worker message =>
  some (worker.handle readFile message)

structure Session (σ : Type) where
  engine : Engine
  channel : Channel
  /-- The compiler's state, unless it is gone. -/
  compiler : Option σ
  /-- The messages on their way to the compiler. -/
  outgoing : List Message := []
  /-- The calls that requests were issued for. -/
  requests : List (UInt64 × Nat) := []

/-- A session with what its engine did last. -/
abbrev Sessioned (σ : Type) := Session σ × List EngineEvent

namespace Session

variable {σ : Type}

/-- The result of a call that a request's result stands for. -/
def programOf : Except Failure Json → Except Failure Program
  | .error failure => .error failure
  | .ok json =>
    match Program.ofJson json with
    | .ok program => .ok program
    | .error _ => .error .undecodable

/-- Takes what the channel did: messages are on their way to the compiler, and results go to the
engine. -/
def absorb (session : Session σ) : List ChannelEvent → Sessioned σ
  | [] => (session, [])
  | event :: rest =>
    let (session, events) : Sessioned σ := match event with
      | .sent message => ({ session with outgoing := session.outgoing ++ [message] }, [])
      | .progressed _ _ => (session, [])
      | .settled id result =>
        match session.requests.lookup id with
        | none => (session, [])
        | some call =>
          let (engine, events) := session.engine.step (.answer call (programOf result))
          let requests := session.requests.filter fun entry => entry.1 ≠ id
          ({ session with engine, requests }, events)
    let (session, later) := session.absorb rest
    (session, events ++ later)

/-- Puts one of the engine's notices or calls on the channel. -/
def issueOne (session : Session σ) : EngineEvent → Sessioned σ
  | .noticed notice =>
    match session.channel.notify notice.method notice.params with
    | (channel, .ok events) => { session with channel }.absorb events
    | (channel, .error _) => ({ session with channel }, [])
  | .called call root =>
    let requests := (session.channel.nextId, call) :: session.requests
    let (channel, events) := session.channel.request session.engine.now Message.compileMethod
      (compileParams root) true
    { session with channel, requests }.absorb events
  | .published _ _ _ | .answered _ _ => (session, [])

/-- Puts the engine's notices and calls on the channel. -/
def issue (session : Session σ) : List EngineEvent → Sessioned σ
  | [] => (session, [])
  | event :: rest =>
    let (session, events) := session.issueOne event
    let (session, later) := session.issue rest
    (session, events ++ later)

/-- Takes messages from the compiler. -/
def receive (session : Session σ) : List Message → Sessioned σ
  | [] => (session, [])
  | message :: rest =>
    let (channel, events) := session.channel.receive message
    let (session, events) := { session with channel }.absorb events
    let (session, later) := session.receive rest
    (session, events ++ later)

/-- Notes that the compiler is gone. -/
def disconnect (session : Session σ) : Sessioned σ :=
  let (channel, events) := session.channel.disconnect
  { session with channel := channel.deafen, compiler := none, outgoing := [] }.absorb events

/-- Gives messages to the compiler, one after the other, and takes its answers to each. The compiler is
not timed: what it says comes at the instant at which it is given a message, however long it may be
about it. -/
def give (session : Session σ) (peer : Peer σ) : List Message → Sessioned σ
  | [] => (session, [])
  | message :: rest =>
    match session.compiler with
    | none => (session, [])
    | some state =>
      match peer state message with
      | none => session.disconnect
      | some (state, answers) =>
        let (session, events) := { session with compiler := some state }.receive answers
        let (session, later) := session.give peer rest
        (session, events ++ later)

/-- What the editor sees of the engine's events. -/
def isVisible : EngineEvent → Bool
  | .published _ _ _ | .answered _ _ => true
  | .noticed _ | .called _ _ => false

/-- Exchanges messages with the compiler, in a number of rounds. In each, the engine's events and
the messages on their way go out, and what comes back makes the next events. -/
def settleWithin (peer : Peer σ) : Nat → Session σ → List EngineEvent → Sessioned σ
  | 0, session, events => (session, events.filter isVisible)
  | rounds + 1, session, events =>
    let (session, refused) := session.issue events
    let (session, answered) := { session with outgoing := [] }.give peer session.outgoing
    let next := refused ++ answered
    let (session, later) :=
      if next.isEmpty && session.outgoing.isEmpty then (session, [])
      else settleWithin peer rounds session next
    (session, events.filter isVisible ++ later)

/-- A bound on the rounds in which calls can follow from the jobs and signals that are there. -/
def roundBound (session : Session σ) : Nat :=
  2 * session.engine.scheduler.jobs.length + session.engine.purposes.length +
    session.engine.limiterWeight + 1

/-- Exchanges messages with the compiler until there is nothing to exchange. -/
def settle (session : Session σ) (peer : Peer σ) (events : List EngineEvent) : Sessioned σ :=
  session.settleWithin peer session.roundBound events

/-- Gives the engine what the channel settled, and goes on from there. -/
def follow (session : Session σ) (peer : Peer σ) (events : List ChannelEvent) : Sessioned σ :=
  let (session, events) := session.absorb events
  session.settle peer events

/-- Takes an input. -/
def step (session : Session σ) (peer : Peer σ) (input : EngineInput) : Sessioned σ :=
  let (engine, events) := session.engine.step input
  { session with engine }.settle peer events

/-- The next time at which something happens by itself. -/
def deadline? (session : Session σ) : Option Nat :=
  (session.engine.deadline?.toList ++ session.channel.pending.filterMap PendingRequest.deadline).min?

/-- Moves the clock on to a time until which nothing happens by itself: requests that are overdue
fail, and the limiters go on. -/
def tick (session : Session σ) (peer : Peer σ) (time : Nat) : Sessioned σ :=
  let (session, events) := session.step peer (.elapse time)
  let (channel, expired) := session.channel.expire time
  let (session, later) := { session with channel }.follow peer expired
  (session, events ++ later)

/-- A bound on how many times something can happen by itself. -/
def tickBound (session : Session σ) : Nat :=
  2 * session.engine.limiterWeight + session.channel.pending.length + 1

/-- Moves the clock on, in a number of ticks. -/
def advanceWithin (peer : Peer σ) (time : Nat) : Nat → Session σ → Sessioned σ
  | 0, session => session.tick peer time
  | ticks + 1, session =>
    match session.deadline? with
    | none => session.tick peer time
    | some next =>
      if next ≤ time then
        let (session, events) := session.tick peer next
        let (session, later) := advanceWithin peer time ticks session
        (session, events ++ later)
      else session.tick peer time

/-- Moves the clock on, by way of all that happens until then. -/
def advance (session : Session σ) (peer : Peer σ) (time : Nat) : Sessioned σ :=
  session.advanceWithin peer time session.tickBound

def isAnswerTo (ticket : Nat) : EngineEvent → Bool
  | .answered other _ => other = ticket
  | _ => false

/-- Lets time pass until a request is answered, in a number of ticks. -/
def awaitWithin (peer : Peer σ) (ticket : Nat) :
    Nat → Session σ → List EngineEvent → Sessioned σ
  | 0, session, events => (session, events)
  | ticks + 1, session, events =>
    if events.any (isAnswerTo ticket) then (session, events)
    else
      match session.deadline? with
      | none => (session, events)
      | some next =>
        let (session, later) := session.tick peer next
        awaitWithin peer ticket ticks session (events ++ later)

/-- Makes a request and waits for its answer. -/
def request (session : Session σ) (peer : Peer σ) (ticket : Nat) (request : EngineRequest) :
    Sessioned σ :=
  let (session, events) := session.step peer (.request ticket request)
  session.awaitWithin peer ticket session.tickBound events

/-- Ends the session: the engine drops what it holds, and the compiler is gone. -/
def dispose (session : Session σ) (peer : Peer σ) : Sessioned σ :=
  let (session, events) := session.step peer .dispose
  let (session, failed) := session.disconnect
  let (session, later) := session.settle peer failed
  (session, events ++ later)

/-- A session whose compiler has said something and then may have gone away. -/
def start (config : Config) (annotate : Annotator) (compiler : Option σ)
    (greeting : List Message) : Session σ :=
  let session : Session σ :=
    { engine := Engine.start config annotate
      channel := { timeout := config.requestTimeoutMs }
      compiler }
  let (session, _) := session.receive greeting
  if compiler.isSome then session else session.disconnect.1

end Session

/-- A session over the built-in compiler. -/
def Worker.session (config : Config) (annotate : Annotator) : Session Worker :=
  Session.start config annotate (some { annotate, builtins := config.builtins }) Worker.greeting

end StoryScript
