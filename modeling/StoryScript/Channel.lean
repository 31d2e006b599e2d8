import StoryScript.Failure
import StoryScript.Message

/-!
The host's side of a connection to a compiler. Requests are numbered, and each is settled by the
response with its number. Until the compiler says that it is ready, messages are held back in the
order in which they were issued. A request may have a deadline.
-/

namespace StoryScript

/-- A request that is not settled. -/
structure PendingRequest where
  id : UInt64
  method : String
  /-- Whether its caller listens to progress. -/
  listens : Bool
  /-- When it fails for want of a response. -/
  deadline : Option Nat
deriving DecidableEq, Inhabited

/-- What a channel does. -/
inductive ChannelEvent where
  /-- A message reaches the compiler. -/
  | sent (message : Message)
  /-- A request's caller gets its result. -/
  | settled (id : UInt64) (result : Except Failure Json)
  /-- A request's caller hears of its progress. -/
  | progressed (id : UInt64) (value : Json)

structure Channel where
  /-- How long a request may take. -/
  timeout : Option Nat := none
  /-- Whether the compiler has said that it is ready. -/
  isReady : Bool := false
  /-- Whether the compiler has gone away. -/
  isClosed : Bool := false
  /-- Whether the compiler has stopped listening. -/
  isDeaf : Bool := false
  /-- The messages that are held back. -/
  queue : List Message := []
  pending : List PendingRequest := []
  /-- The number of the next request. -/
  nextId : UInt64 := 1
deriving Inhabited

namespace Channel

/-- Forgets a request, which its caller no longer waits for: a response is not awaited, and a
message that was held back is not sent. -/
def withdraw (channel : Channel) (id : UInt64) : Channel :=
  { channel with
    pending := channel.pending.filter fun request => request.id ≠ id
    queue := channel.queue.filter fun message => message.id? ≠ some id }

def isPending (channel : Channel) (id : UInt64) : Bool :=
  channel.pending.any fun request => request.id = id

/-- Settles a request, if it is pending. -/
def settle (channel : Channel) (id : UInt64) (result : Except Failure Json) :
    Channel × List ChannelEvent :=
  if channel.isPending id then (channel.withdraw id, [.settled id result]) else (channel, [])

/-- How long a request that is issued now may wait. -/
def deadlineFrom (channel : Channel) (now : Nat) : Option Nat :=
  channel.timeout.map (now + ·)

/-- The failure of a request that took too long. -/
def timeoutOf (channel : Channel) (request : PendingRequest) : Failure :=
  .timeout request.method (channel.timeout.getD 0)

def isOverdue (now : Nat) (request : PendingRequest) : Bool :=
  request.deadline.any fun deadline => deadline ≤ now

/-- Fails the requests whose deadline has come. -/
def expire (channel : Channel) (now : Nat) : Channel × List ChannelEvent :=
  let overdue := channel.pending.filter (isOverdue now)
  (overdue.foldl (fun channel request => channel.withdraw request.id) channel,
    overdue.map fun request => .settled request.id (.error (channel.timeoutOf request)))

/-- Issues a request at some time. It takes the next number in any case; a compiler that is gone
or does not listen fails it at once. -/
def request (channel : Channel) (now : Nat) (method : String) (params : Json) (listens : Bool) :
    Channel × List ChannelEvent :=
  let id := channel.nextId
  let channel := { channel with nextId := id + 1 }
  let message := Message.request id method params
  let pending := channel.pending ++ [⟨id, method, listens, channel.deadlineFrom now⟩]
  if channel.isClosed then (channel, [.settled id (.error .disconnected)])
  else if channel.isReady then
    if channel.isDeaf then (channel, [.settled id (.error .disconnected)])
    else
      let (channel, expired) := { channel with pending }.expire now
      (channel, .sent message :: expired)
  else { channel with pending, queue := channel.queue ++ [message] }.expire now

/-- Issues a notification. -/
def notify (channel : Channel) (method : String) (params : Json) :
    Channel × Except Failure (List ChannelEvent) :=
  let message := Message.notification method params
  if channel.isClosed then (channel, .error .disconnected)
  else if channel.isReady then
    (channel, if channel.isDeaf then .error .disconnected else .ok [.sent message])
  else ({ channel with queue := channel.queue ++ [message] }, .ok [])

/-- Sends what was held back. If the compiler does not listen, its requests fail. -/
def flush (channel : Channel) : Channel × List ChannelEvent :=
  let flushed := { channel with isReady := true, queue := [] }
  if channel.isDeaf then
    let ids := channel.queue.filterMap Message.id?
    ({ flushed with pending := channel.pending.filter fun request => request.id ∉ ids },
      (ids.filter channel.isPending).map fun id => .settled id (.error .disconnected))
  else (flushed, channel.queue.map .sent)

/-- The result that a response carries. -/
def resultOf (result : Option Json) : Option RemoteError → Except Failure Json
  | some error => .error (.remote error.code error.message)
  | none => .ok (result.getD .null)

/-- Takes a message from the compiler. -/
def receive (channel : Channel) : Message → Channel × List ChannelEvent
  | .notification method _ =>
    if method = Message.readyMethod ∧ !channel.isReady then channel.flush else (channel, [])
  | .response id result error => channel.settle id (resultOf result error)
  | .progress id _ value =>
    (channel, if channel.pending.any fun request => request.id = id && request.listens then
      [.progressed id value] else [])
  | .request id method _ =>
    (channel, if channel.isDeaf then []
      else [.sent (.failure id (-32601) ("unsupported method: " ++ method))])

/-- Notes that the compiler is gone: what was held back is dropped, and pending requests fail. -/
def disconnect (channel : Channel) : Channel × List ChannelEvent :=
  ({ channel with isClosed := true, queue := [], pending := [] },
    channel.pending.map fun request => .settled request.id (.error .disconnected))

/-- Notes that the compiler no longer listens. -/
def deafen (channel : Channel) : Channel :=
  { channel with isDeaf := true }

end Channel

end StoryScript
