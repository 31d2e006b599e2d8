import StoryScript.Proofs.Host

/-!
A channel whose callers go on at their own pace. When a request gets its result, the result waits in
`Connection.replies` until the caller takes it; only then is the request's message, if it was held
back, given up. A `Connection` is a channel with these results, and its steps are the channel's own
operations, each for one caller. A run is any sequence of steps (`Connection.run`), and its history
has the connection before each of them (`Connection.history`). What a step can do is said once, by
`Connection.Takes` and `Connection.takes_step`.
-/

namespace StoryScript

open Channel ChannelEvent List Message

/-- The result that a caller gets, with the number of its request. -/
def ChannelEvent.reply? : ChannelEvent → Option (UInt64 × Except Failure Json)
  | .settled id r => some (id, r)
  | _ => none

namespace Channel

/-- Whether a message is refused when it is issued. -/
def refuses (channel : Channel) : Bool :=
  channel.isClosed || (channel.isReady && channel.isDeaf)

/-- The request that is pending once the next request is accepted. -/
def nextPending (channel : Channel) (now : Nat) (method : String) (l : Bool) :
    PendingRequest :=
  ⟨channel.nextId, method, l, channel.deadlineFrom now⟩

/-- Issues a request. Its caller looks at the clock, and no other caller does. -/
def issue (channel : Channel) (now : Nat) (method : String) (params : Json) (l : Bool) :
    Channel × List ChannelEvent :=
  let (n, es) := { channel with pending := [] }.request now method params l
  ({ n with pending := channel.pending ++ n.pending }, es)

/-- Takes a message. A request that it settles leaves its own message where it is. -/
def take (channel : Channel) (m : Message) : Channel × List ChannelEvent :=
  let (n, es) := channel.receive m
  match m with
  | .response _ _ _ => ({ n with queue := channel.queue }, es)
  | _ => (n, es)

variable {channel : Channel}

theorem expire_of_pending_eq {r : PendingRequest} (h : channel.pending = [r]) (now : Nat) :
    channel.expire now = if isOverdue now r then
        (channel.withdraw r.id, [.settled r.id (.error (channel.timeoutOf r))])
      else (channel, []) := by
  cases ho : isOverdue now r <;> simp [expire, h, ho]

section

variable (channel) (now : Nat) (method : String) (params : Json) (l : Bool)

theorem refuses_iff : channel.refuses = true ↔
    channel.isClosed = true ∨ channel.isReady = true ∧ channel.isDeaf = true := by
  simp [refuses]

theorem issue_of_refuses (h : channel.refuses = true) :
    channel.issue now method params l = ({ channel with nextId := channel.nextId + 1 },
        [.settled channel.nextId (.error .disconnected)]) := by
  rcases channel.refuses_iff.mp h with hc | hb
  · simp [issue, request, hc]
  · simp [issue, request, hb]

theorem issue_of_not_refuses (h : channel.refuses = false) :
    channel.issue now method params l =
      let m := Message.request channel.nextId method params
      let sent := if channel.isReady then [ChannelEvent.sent m] else []
      if isOverdue now (channel.nextPending now method l) then
        ({ channel with
            nextId := channel.nextId + 1
            queue := channel.queue.filter fun m ↦ m.id? ≠ some channel.nextId },
          sent ++ [.settled channel.nextId
            (.error (channel.timeoutOf (channel.nextPending now method l)))])
      else
        ({ channel with
            nextId := channel.nextId + 1
            pending := channel.pending ++ [channel.nextPending now method l]
            queue := if channel.isReady then channel.queue else channel.queue ++ [m] },
          sent) := by
  obtain ⟨hc, hd⟩ : channel.isClosed = false ∧ (channel.isReady = true → channel.isDeaf = false) := by
    simpa [refuses] using h
  -- the request is the only one in the table, so the clock is looked at for it alone
  obtain ⟨issued, hi⟩ : ∃ issued : Channel, issued = { channel with
      nextId := channel.nextId + 1
      pending := [channel.nextPending now method l]
      queue := if channel.isReady then channel.queue
        else channel.queue ++ [.request channel.nextId method params] } := ⟨_, rfl⟩
  have hp : issued.pending = [channel.nextPending now method l] := by rw [hi]
  have hre : { channel with pending := [] }.request now method params l =
      ((issued.expire now).1,
        (if channel.isReady then [ChannelEvent.sent (.request channel.nextId method params)] else []) ++
          (issued.expire now).2) := by
    cases hr : channel.isReady with
    | true =>
      simp only [hi, request, hc, hr, hd hr, Bool.false_eq_true, if_false, if_true]
      rfl
    | false =>
      simp only [hi, request, hc, hr, Bool.false_eq_true, if_false]
      rfl
  rw [issue, hre, expire_of_pending_eq hp]
  cases isOverdue now (channel.nextPending now method l) with
  | true =>
    have hid : (Message.request channel.nextId method params).id? = some channel.nextId := rfl
    cases hr : channel.isReady with
    | true =>
      simp only [hi, hr, withdraw, nextPending, timeoutOf, ne_eq, filter_cons, not_true,
        decide_false, Bool.false_eq_true, if_false, if_true, filter_nil, append_nil]
      rfl
    | false =>
      simp only [hi, hr, withdraw, nextPending, timeoutOf, filter_append, hid, ne_eq,
        filter_cons, not_true, decide_false, Bool.false_eq_true, if_false, if_true,
        filter_nil, append_nil]
      rfl
  | false => simp [hi]

theorem notify_of_refuses (h : channel.refuses = true) :
    channel.notify method params = (channel, .error .disconnected) := by
  rcases channel.refuses_iff.mp h with hc | hb
  · simp [notify, hc]
  · simp [notify, hb]

theorem notify_of_not_refuses (h : channel.refuses = false) :
    channel.notify method params =
      let m := notification method params
      ({ channel with
          queue := if channel.isReady then channel.queue else channel.queue ++ [m] },
        .ok (if channel.isReady then [.sent m] else [])) := by
  obtain ⟨hc, hd⟩ :
      channel.isClosed = false ∧ (channel.isReady = true → channel.isDeaf = false) := by
    simpa [refuses] using h
  have ho : ¬ channel.isClosed = true := Bool.eq_false_iff.mp hc
  by_cases hr : channel.isReady = true
  · have hh : ¬ channel.isDeaf = true := Bool.eq_false_iff.mp (hd hr)
    simp only [notify, if_neg ho, if_pos hr, if_neg hh]
  · simp only [notify, if_neg ho, if_neg hr]

end

theorem flush_of_deaf (h : channel.isDeaf = true) :
    channel.flush =
      let ids := channel.queue.filterMap id?
      ({ channel with
          isReady := true
          queue := []
          pending := channel.pending.filter fun r ↦ r.id ∉ ids },
        (ids.filter channel.isPending).map fun id ↦ .settled id (.error .disconnected)) :=
  if_pos h

theorem flush_of_open (h : channel.isDeaf = false) :
    channel.flush = ({ channel with isReady := true, queue := [] }, channel.queue.map .sent) :=
  if_neg (Bool.eq_false_iff.mp h)

end Channel

/-- What can happen on the host's side of a connection, in any order. -/
inductive ConnectionInput where
  | request (now : Nat) (method : String) (params : Json) (l : Bool)
  | notify (method : String) (params : Json)
  /-- A message comes from the compiler. -/
  | receive (message : Message)
  /-- A caller takes the result that waits for it. -/
  | resume (id : UInt64)
  /-- A caller looks at the clock. -/
  | expire (now : Nat) (id : UInt64)
  /-- A caller no longer waits. -/
  | drop (id : UInt64)
  /-- The compiler is gone. -/
  | disconnect
  /-- The compiler no longer listens. -/
  | deafen
deriving DecidableEq

def ConnectionInput.isRequest : ConnectionInput → Bool
  | request _ _ _ _ => true
  | _ => false

structure Connection where
  channel : Channel
  /-- The results that their callers have not taken. -/
  replies : List (UInt64 × Except Failure Json) := []

namespace Connection

def start (timeout : Option Nat) : Connection :=
  { channel := { timeout } }

/-- Takes what the channel did; results wait for their callers. -/
def post (c : Connection) (n : Channel × List ChannelEvent) : Connection × List ChannelEvent :=
  ({ channel := n.1, replies := c.replies ++ n.2.filterMap reply? },
    n.2.filter fun e ↦ e.reply?.isNone)

/-- Gives up a request, with its result and its message. -/
def leave (c : Connection) (id : UInt64) : Connection :=
  { channel := c.channel.withdraw id
    replies := c.replies.filter fun r ↦ r.1 ≠ id }

def step (c : Connection) : ConnectionInput → Connection × List ChannelEvent
  | .request now method params l =>
    let (channel, es) := c.channel.issue now method params l
    ({ c with channel }, es)
  | .notify method params =>
    let (channel, res) := c.channel.notify method params
    ({ c with channel }, res.toOption.getD [])
  | .receive m =>
    -- nobody reads on once the compiler is gone
    if c.channel.isClosed then (c, [])
    else c.post (c.channel.take m)
  | .resume id =>
    match c.replies.find? fun rp ↦ rp.1 = id with
    | some rp => (c.leave id, [.settled id rp.2])
    | none => (c, [])
  | .expire now id =>
    match c.channel.pending.find? fun r ↦
        r.id = id && isOverdue now r with
    | some r =>
      (c.leave id, [.settled id (.error (c.channel.timeoutOf r))])
    | none => (c, [])
  | .drop id => (c.leave id, [])
  | .disconnect => c.post c.channel.disconnect
  | .deafen => ({ c with channel := c.channel.deafen }, [])

/-- An input, and the connection that it finds. -/
structure Moment where
  before : Connection
  input : ConnectionInput

def Moment.events (m : Moment) : List ChannelEvent :=
  (m.before.step m.input).2

/-- Takes inputs in turn. -/
def run (c : Connection) (is : List ConnectionInput) : Connection :=
  is.foldl (fun c i ↦ (c.step i).1) c

/-- The moments of a run. -/
def history (c : Connection) : List ConnectionInput → List Moment
  | [] => []
  | i :: is => ⟨c, i⟩ :: history (c.step i).1 is

variable (c : Connection) (is : List ConnectionInput)

theorem run_concat (i : ConnectionInput) : c.run (is ++ [i]) = ((c.run is).step i).1 := by
  rw [run, foldl_append]
  rfl

theorem history_append (is more : List ConnectionInput) :
    c.history (is ++ more) = c.history is ++ (c.run is).history more := by
  induction is generalizing c with
  | nil => rfl
  | cons i is ih =>
    rw [cons_append, history, history, ih, cons_append]
    rfl

theorem history_concat (i : ConnectionInput) :
    c.history (is ++ [i]) = c.history is ++ [⟨c.run is, i⟩] :=
  history_append c is [i]

/-- Whether an input puts an end to the wait for a response: it is the response, or the request is
found to be unheard, or its time is up, or its caller or the compiler is gone. -/
def Ends (c : Connection) (r : PendingRequest) : ConnectionInput → Prop
  | .receive (.response id _ _) => id = r.id
  | .receive (.notification method _) =>
    method = readyMethod ∧ c.channel.isReady = false ∧ c.channel.isDeaf = true
  | .expire now id => id = r.id ∧ isOverdue now r = true
  | .drop id => id = r.id
  | .disconnect => True
  | _ => False

/-- What a message adds to the wire when it is accepted. -/
def sentNow (c : Connection) (m : Message) : List ChannelEvent :=
  if c.channel.isReady then [.sent m] else []

/-- What is held back once a message is accepted. -/
def heldWith (c : Connection) (m : Message) : List Message :=
  if c.channel.isReady then c.channel.queue
  else c.channel.queue ++ [m]

/-- An input at which nothing moves. A message that is issued then is refused, and no wait ends unless
the compiler is gone. -/
structure Idle (c : Connection) (input : ConnectionInput) (events : List ChannelEvent) :
    Prop where
  request : input.isRequest = false := by rfl
  notify : ∀ method params, input = .notify method params → c.channel.refuses = true := by
    simp
  drop : ∀ id, input ≠ .drop id := by simp
  disconnect : input ≠ .disconnect := by simp
  deafen : input ≠ .deafen := by simp
  ready : ∀ params, input = .receive (.notification readyMethod params) →
    c.channel.isClosed = true ∨ c.channel.isReady = true := by simp
  ends : ∀ request ∈ c.channel.pending, c.channel.isClosed = false →
    ¬ c.Ends request input := by exact fun _ _ _ hends ↦ hends
  replies : ∀ event ∈ events, event.reply? = none := by simp
  sent : ∀ event ∈ events, ∀ message, event.sent? = some message → message.isIssued = false := by
    simp
  progress : ∀ id value, .progressed id value ∈ events →
    ∃ method, input = .receive (.progress id method value) := by simp

/-- What a step does. -/
inductive Takes (c : Connection) :
    ConnectionInput → Connection → List ChannelEvent → Prop
  | refused {now : Nat} {method : String} {params : Json} {l : Bool}
      (hrefuses : c.channel.refuses = true) :
      Takes c (.request now method params l)
        { c with channel := { c.channel with nextId := c.channel.nextId + 1 } }
        [.settled c.channel.nextId (.error .disconnected)]
  /-- A request whose time is up at once. -/
  | lapsed {now : Nat} {method : String} {params : Json} {l : Bool}
      (hrefuses : c.channel.refuses = false)
      (hoverdue : isOverdue now (c.channel.nextPending now method l) = true) :
      Takes c (.request now method params l)
        { c with channel := { c.channel with
          nextId := c.channel.nextId + 1
          queue := c.channel.queue.filter fun message ↦ message.id? ≠ some c.channel.nextId } }
        (c.sentNow (.request c.channel.nextId method params) ++
          [.settled c.channel.nextId (.error (c.channel.timeoutOf
            (c.channel.nextPending now method l)))])
  | accepted {now : Nat} {method : String} {params : Json} {l : Bool}
      (hrefuses : c.channel.refuses = false)
      (hoverdue : isOverdue now (c.channel.nextPending now method l) = false) :
      Takes c (.request now method params l)
        { c with channel := { c.channel with
          nextId := c.channel.nextId + 1
          pending := c.channel.pending ++ [c.channel.nextPending now method l]
          queue := c.heldWith (.request c.channel.nextId method params) } }
        (c.sentNow (.request c.channel.nextId method params))
  | notified {method : String} {params : Json} (hrefuses : c.channel.refuses = false) :
      Takes c (.notify method params)
        { c with channel := { c.channel with
          queue := c.heldWith (.notification method params) } }
        (c.sentNow (.notification method params))
  /-- The compiler is ready, and gets what was held back. -/
  | flushed {params : Json} (hclosed : c.channel.isClosed = false)
      (hready : c.channel.isReady = false) (hdeaf : c.channel.isDeaf = false) :
      Takes c (.receive (.notification readyMethod params))
        { c with channel := { c.channel with isReady := true, queue := [] } }
        (c.channel.queue.map .sent)
  /-- The compiler is ready, but does not listen. -/
  | unheard {params : Json} (hclosed : c.channel.isClosed = false)
      (hready : c.channel.isReady = false) (hdeaf : c.channel.isDeaf = true) :
      Takes c (.receive (.notification readyMethod params))
        { channel := { c.channel with
            isReady := true
            queue := []
            pending := c.channel.pending.filter fun request ↦
              request.id ∉ c.channel.queue.filterMap id? }
          replies := c.replies ++ ((c.channel.queue.filterMap id?).filter c.channel.isPending).map
              fun id ↦ (id, .error .disconnected) }
        []
  | answered {id : UInt64} {result : Option Json} {error : Option RemoteError}
      (hclosed : c.channel.isClosed = false)
      (hpend : c.channel.isPending id = true) :
      Takes c (.receive (.response id result error))
        { channel := { c.channel with
            pending := c.channel.pending.filter fun request ↦ request.id ≠ id }
          replies := c.replies ++ [(id, resultOf result error)] }
        []
  | resumed {id : UInt64} {result : Except Failure Json} (hreply : (id, result) ∈ c.replies) :
      Takes c (.resume id) (c.leave id) [.settled id result]
  | expired {now : Nat} {request : PendingRequest} (hpend : request ∈ c.channel.pending)
      (hoverdue : isOverdue now request = true) :
      Takes c (.expire now request.id) (c.leave request.id)
        [.settled request.id (.error (c.channel.timeoutOf request))]
  | dropped {id : UInt64} : Takes c (.drop id) (c.leave id) []
  | disconnected :
      Takes c .disconnect
        { channel := { c.channel with isClosed := true, queue := [], pending := [] }
          replies := c.replies ++
            c.channel.pending.map fun request ↦ (request.id, .error .disconnected) }
        []
  | deafened :
      Takes c .deafen { c with channel := { c.channel with isDeaf := true } } []
  | idle {input : ConnectionInput} {events : List ChannelEvent}
      (hidle : c.Idle input events) : Takes c input c events

variable {c}

theorem post_of_quiet {channel : Channel} {es : List ChannelEvent} (h : ∀ e ∈ es, e.reply? = none) :
    c.post (channel, es) = ({ c with channel }, es) := by
  rw [post, filterMap_eq_nil_iff.mpr h, append_nil, filter_eq_self.mpr]
  intro e he
  rw [h e he]
  rfl

variable (c)

/-- Results of requests that all fail alike wait for their callers. -/
theorem post_settled {α : Type} (channel : Channel) (xs : List α) (id : α → UInt64)
    (r : Except Failure Json) :
    c.post (channel, xs.map fun x ↦ .settled (id x) r) =
      ({ channel, replies := c.replies ++ xs.map fun x ↦ (id x, r) }, []) := by
  have hr : (xs.map fun x ↦ settled (id x) r).filterMap reply? = xs.map fun x ↦ (id x, r) := by
    rw [filterMap_map]
    exact congrFun filterMap_eq_map' _
  have hq : ((xs.map fun x ↦ settled (id x) r).filter fun e ↦ e.reply?.isNone) = [] := by
    rw [filter_eq_nil_iff]
    intro e he
    obtain ⟨x, -, rfl⟩ := mem_map.mp he
    exact Bool.false_ne_true
  rw [post, hr, hq]

variable (now : Nat) (method : String) (params : Json) (l : Bool) (id : UInt64)

theorem takes_request :
    c.Takes (.request now method params l) (c.step (.request now method params l)).1
      (c.step (.request now method params l)).2 := by
  cases hr : c.channel.refuses with
  | true =>
    have hi := c.channel.issue_of_refuses now method params l hr
    simp only [step, hi]
    exact .refused hr
  | false =>
    have hi := c.channel.issue_of_not_refuses now method params l hr
    cases ho : isOverdue now (c.channel.nextPending now method l) with
    | true =>
      rw [ho, if_pos rfl] at hi
      simp only [step, hi]
      exact .lapsed hr ho
    | false =>
      rw [ho, if_neg Bool.false_ne_true] at hi
      simp only [step, hi]
      exact .accepted hr ho

theorem takes_notify :
    c.Takes (.notify method params) (c.step (.notify method params)).1
      (c.step (.notify method params)).2 := by
  cases hr : c.channel.refuses with
  | true =>
    have hn := c.channel.notify_of_refuses method params hr
    simp only [step, hn]
    have hi : c.Idle (.notify method params) [] := { notify := fun _ _ _ ↦ hr }
    exact .idle hi
  | false =>
    have hn := c.channel.notify_of_not_refuses method params hr
    simp only [step, hn]
    exact .notified hr

theorem takes_ready (hc : c.channel.isClosed = false) (hr : c.channel.isReady = false) :
    c.Takes (.receive (.notification readyMethod params))
      (c.post c.channel.flush).1 (c.post c.channel.flush).2 := by
  cases hd : c.channel.isDeaf with
  | true =>
    rw [flush_of_deaf hd, post_settled]
    exact .unheard hc hr hd
  | false =>
    have hq : ∀ e ∈ c.channel.queue.map sent, e.reply? = none := by
      intro e he
      obtain ⟨m, -, rfl⟩ := mem_map.mp he
      rfl
    rw [flush_of_open hd, post_of_quiet hq]
    exact .flushed hc hr hd

theorem takes_receive (message : Message) :
    c.Takes (.receive message) (c.step (.receive message)).1 (c.step (.receive message)).2 := by
  cases hc : c.channel.isClosed with
  | true =>
    rw [step, hc, if_pos rfl]
    exact .idle { ready := by simp [hc], ends := by simp [hc] }
  | false =>
    rw [step, hc, if_neg Bool.false_ne_true]
    cases message with
    | notification method params =>
      by_cases hr : method = readyMethod ∧ c.channel.isReady = false
      · obtain ⟨rfl, hr⟩ := hr
        have ht : c.channel.take (.notification readyMethod params) =
            c.channel.flush := by
          simp [Channel.take, receive, hr]
        rw [ht]
        exact takes_ready c params hc hr
      · have ht : c.channel.take (.notification method params) = (c.channel, []) := by
          simp only [Channel.take, receive]
          exact if_neg (by simpa using hr)
        rw [ht, post_of_quiet (by simp)]
        have hk : method = readyMethod → c.channel.isReady = true := by
          simpa using hr
        refine .idle { ready := ?_, ends := ?_ }
        · intro _ hi
          injection hi with hms
          injection hms with hm
          exact .inr (hk hm)
        · rintro request - - ⟨hm, hu, -⟩
          exact Bool.false_ne_true (hu.symm.trans (hk hm))
    | response id result error =>
      by_cases hp : c.channel.isPending id = true
      · have ht : c.channel.take (.response id result error) =
            ({ c.channel with
                pending := c.channel.pending.filter fun request ↦ request.id ≠ id },
              [id].map fun id ↦ .settled id (resultOf result error)) := by
          simp only [Channel.take, receive, settle, if_pos hp]
          rfl
        rw [ht, post_settled]
        exact .answered hc hp
      · have ht : c.channel.take (.response id result error) = (c.channel, []) := by
          simp only [Channel.take, receive, settle, if_neg hp]
        rw [ht, post_of_quiet (by simp)]
        refine .idle { ends := ?_ }
        rintro request hre - rfl
        exact hp (any_eq_true.mpr ⟨request, hre, by simp⟩)
    | progress id method value =>
      obtain ⟨events, ht, hev⟩ : ∃ events, c.channel.take (.progress id method value) =
          (c.channel, events) ∧ ∀ event ∈ events, event = .progressed id value := by
        refine ⟨_, rfl, ?_⟩
        split <;> simp
      have hq : ∀ event ∈ events, event.reply? = none := fun event h ↦ hev event h ▸ rfl
      rw [ht, post_of_quiet hq]
      refine .idle { replies := hq, sent := ?_, progress := ?_ }
      · intro event he message hs
        rw [hev event he] at hs
        cases hs
      · intro other heard he
        cases hev _ he
        exact ⟨method, rfl⟩
    | request id method params =>
      obtain ⟨events, ht, hev⟩ : ∃ events, c.channel.take (.request id method params) =
          (c.channel, events) ∧ ∀ event ∈ events, event =
            .sent (.failure id (-32601) ("unsupported method: " ++ method)) := by
        refine ⟨_, rfl, ?_⟩
        split <;> simp
      have hq : ∀ event ∈ events, event.reply? = none := fun event h ↦ hev event h ▸ rfl
      rw [ht, post_of_quiet hq]
      refine .idle { replies := hq, sent := ?_, progress := ?_ }
      · intro event he message hs
        rw [hev event he] at hs
        cases hs
        rfl
      · intro other heard he
        cases hev _ he

theorem takes_resume : c.Takes (.resume id) (c.step (.resume id)).1 (c.step (.resume id)).2 := by
  cases hf : c.replies.find? fun reply ↦ reply.1 = id with
  | none =>
    simp only [step, hf]
    exact .idle {}
  | some reply =>
    have hi : reply.1 = id := by simpa using find?_some hf
    have hm : (id, reply.2) ∈ c.replies := hi ▸ mem_of_find?_eq_some hf
    simp only [step, hf]
    exact .resumed hm

theorem takes_expire :
    c.Takes (.expire now id) (c.step (.expire now id)).1 (c.step (.expire now id)).2 := by
  cases hf : c.channel.pending.find? fun request ↦
      request.id = id && isOverdue now request with
  | none =>
    have hn := find?_eq_none.mp hf
    simp only [step, hf]
    refine .idle { ends := ?_ }
    rintro request hr - ⟨hi, ho⟩
    exact hn request hr (by simp [hi, ho])
  | some request =>
    obtain ⟨hi, ho⟩ : request.id = id ∧ isOverdue now request = true := by
      simpa using find?_some hf
    subst hi
    simp only [step, hf]
    exact .expired (mem_of_find?_eq_some hf) ho

theorem takes_disconnect : c.Takes .disconnect (c.step .disconnect).1 (c.step .disconnect).2 := by
  rw [step, disconnect, post_settled]
  exact .disconnected

theorem takes_step (i : ConnectionInput) : c.Takes i (c.step i).1 (c.step i).2 := by
  cases i with
  | request now method params l => exact takes_request c now method params l
  | notify method params => exact takes_notify c method params
  | receive m => exact takes_receive c m
  | resume id => exact takes_resume c id
  | expire now id => exact takes_expire c now id
  | drop id => exact .dropped
  | disconnect => exact takes_disconnect c
  | deafen => exact .deafened

end Connection

end StoryScript
