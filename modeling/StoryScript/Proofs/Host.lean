import StoryScript.Channel
import StoryScript.Proofs.Engine.Calls
import StoryScript.Proofs.Engine.Notices
import StoryScript.Proofs.Story
import StoryScript.Proofs.Worker

/-!
The documents as the compiler has them. A `Host` is an engine with the channel to its compiler; it
remembers what it issued, each message with the documents that were open right then, and what it
sent. Anything may happen to the channel in between: messages are held back until the compiler is
ready, requests time out or are withdrawn, the compiler goes away. What is sent is what was issued,
in order, up to some point and but for requests (`Host.Follows`). So a compiler that has handled any
number of messages has the documents as they were when the last of their notices was issued, and
makes a program of what was open when the program was asked for (`Host.replica_after_handling`).
-/

namespace StoryScript

open ChannelEvent List Message Table Worker

/-- What can happen on the host's side of a connection. -/
inductive HostInput where
  | engine (input : EngineInput)
  /-- A message comes from the compiler. -/
  | receive (message : Message)
  /-- Overdue requests fail. -/
  | expire (now : Nat)
  /-- A caller no longer waits for its request. -/
  | withdraw (id : UInt64)
  /-- The compiler is gone. -/
  | disconnect
  /-- The compiler no longer listens. -/
  | deafen

/-- An input whose uris and positions reach the compiler as they are. -/
def HostInput.Fits (i : HostInput) : Prop :=
  ∀ inner, i = .engine inner → inner.Fits

/-- A message for the compiler, with the documents that were open when it was issued. -/
structure Issued where
  message : Message
  documents : Table Uri Source

/-- The message that reaches the compiler. -/
def ChannelEvent.sent? : ChannelEvent → Option Message
  | .sent message => some message
  | _ => none

structure Host where
  engine : Engine
  channel : Channel
  /-- The messages that were issued. -/
  issued : List Issued := []
  /-- The messages that reached the compiler, or are on their way. -/
  sent : List Message := []

namespace Host

def start (c : Config) (ann : Annotator) : Host :=
  { engine := Engine.start c ann, channel := { timeout := c.requestTimeoutMs } }

/-- Takes what the channel did. -/
def pass (host : Host) (next : Channel × List ChannelEvent) : Host :=
  { host with channel := next.1, sent := host.sent ++ next.2.filterMap sent? }

/-- Notes that a message is issued. -/
def note (host : Host) (message : Message) : Host :=
  { host with issued := host.issued ++ [⟨message, host.engine.project.store.sources⟩] }

/-- Puts one of the engine's notices or calls on the channel. -/
def issueOne (host : Host) : EngineEvent → Host
  | .noticed n =>
    let (channel, res) := host.channel.notify n.method n.params
    (host.note (.notification n.method n.params)).pass (channel, res.toOption.getD [])
  | .called _ r =>
    (host.note (.request host.channel.nextId compileMethod (compileParams r))).pass
      (host.channel.request host.engine.now compileMethod (compileParams r) true)
  | .published _ _ _ | .answered _ _ => host

def step (host : Host) : HostInput → Host
  | .engine i =>
    let (engine, es) := host.engine.step i
    es.foldl issueOne { host with engine }
  | .receive message => host.pass (host.channel.receive message)
  | .expire now => host.pass (host.channel.expire now)
  | .withdraw id => { host with channel := host.channel.withdraw id }
  | .disconnect => host.pass host.channel.disconnect
  | .deafen => { host with channel := host.channel.deafen }

/-- Takes inputs in turn. -/
def run (host : Host) (is : List HostInput) : Host :=
  is.foldl step host

end Host

namespace Message

/-- Whether the host issues such a message by itself. -/
def isIssued : Message → Bool
  | request _ _ _ | notification _ _ => true
  | _ => false

def isNotification : Message → Bool
  | notification _ _ => true
  | _ => false

end Message

namespace Issued

def isNotice (issued : Issued) : Bool :=
  issued.message.isNotification

/-- What is kept of the messages that were issued: their order, and all notices. -/
structure Kept (entries issued : List Issued) : Prop where
  sublist : entries.Sublist issued
  notices : entries.filter isNotice = issued.filter isNotice

namespace Kept

variable {entries issued : List Issued}

theorem refl (issued : List Issued) : Kept issued issued :=
  ⟨.refl _, rfl⟩

theorem append {later os : List Issued} (h : Kept entries issued) (h' : Kept later os) :
    Kept (entries ++ later) (issued ++ os) :=
  ⟨h.sublist.append h'.sublist, by rw [filter_append, filter_append, h.notices, h'.notices]⟩

/-- What is kept in two parts comes from two parts: no notice of the second one is missing from the
first. -/
theorem split {x later : List Issued} (h : Kept (x ++ later) issued) :
    ∃ l b, issued = l ++ b ∧ Kept x l ∧ Kept later b := by
  obtain ⟨l, b, rfl, hf, hl⟩ := append_sublist_iff.mp h.sublist
  have hn := h.notices
  rw [filter_append, filter_append] at hn
  have hlen := congrArg List.length hn
  rw [length_append, length_append] at hlen
  have hle := (hf.filter isNotice).length_le
  have hle' := (hl.filter isNotice).length_le
  refine ⟨l, b, rfl, ⟨hf, ?_⟩, hl, ?_⟩
  · exact (hf.filter isNotice).eq_of_length (by omega)
  · exact (hl.filter isNotice).eq_of_length (by omega)

/-- Requests may be dropped. -/
theorem drop {later : List Issued} (h : Kept (entries ++ later) issued) {keep : Message → Bool}
    (hk : ∀ message, message.id? = none → keep message = true) :
    Kept (entries ++ later.filter fun e ↦ keep e.message) issued := by
  refine ⟨(filter_sublist.append_left entries).trans h.sublist, ?_⟩
  rw [← h.notices, filter_append, filter_append, filter_filter]
  congr 1
  refine filter_congr fun e _ ↦ ?_
  unfold isNotice
  cases hm : e.message with
  | notification m ps =>
    rw [hk _ rfl]
    rfl
  | _ => rfl

end Kept

end Issued

namespace Channel

/-- A channel that has lost some of the requests that it holds back, but no notices. -/
structure Withdrawn (channel next : Channel) : Prop where
  isReady : next.isReady = channel.isReady
  isClosed : next.isClosed = channel.isClosed
  isDeaf : next.isDeaf = channel.isDeaf
  queue : ∃ keep : Message → Bool, (∀ message, message.id? = none → keep message = true) ∧
    next.queue = channel.queue.filter keep

namespace Withdrawn

variable {channel next later : Channel}

/-- Nothing is lost if the queue stays. -/
theorem of_queue_eq (hr : next.isReady = channel.isReady)
    (hc : next.isClosed = channel.isClosed) (hd : next.isDeaf = channel.isDeaf)
    (hq : next.queue = channel.queue) : Withdrawn channel next :=
  ⟨hr, hc, hd, fun _ ↦ true, fun _ _ ↦ rfl, by rw [hq, filter_true]⟩

theorem trans (h : Withdrawn channel next) (h' : Withdrawn next later) :
    Withdrawn channel later := by
  obtain ⟨keep, hk, hq⟩ := h.queue
  obtain ⟨keep', hk', hq'⟩ := h'.queue
  refine ⟨h'.isReady.trans h.isReady, h'.isClosed.trans h.isClosed, h'.isDeaf.trans h.isDeaf,
    fun message ↦ keep message && keep' message, fun message hi ↦ ?_, ?_⟩
  · exact Bool.and_eq_true_iff.mpr ⟨hk message hi, hk' message hi⟩
  · rw [hq', hq, filter_filter]
    exact filter_congr fun message _ ↦ Bool.and_comm _ _

end Withdrawn

theorem withdrawn_withdraw (channel : Channel) (id : UInt64) :
    Withdrawn channel (channel.withdraw id) :=
  ⟨rfl, rfl, rfl, fun message ↦ message.id? ≠ some id, fun message hi ↦ by simp [hi], rfl⟩

theorem withdrawn_expire (channel : Channel) (now : Nat) :
    Withdrawn channel (channel.expire now).1 := by
  have hf : ∀ (overdue : List PendingRequest) (channel : Channel), Withdrawn channel
      (overdue.foldl (fun channel r ↦ channel.withdraw r.id) channel) := by
    intro overdue
    induction overdue with
    | nil => exact fun channel ↦ .of_queue_eq rfl rfl rfl rfl
    | cons r tl ih => exact fun channel ↦ (channel.withdrawn_withdraw _).trans (ih _)
  exact hf _ channel

theorem withdrawn_settle (channel : Channel) (id : UInt64) (r : Except Failure Json) :
    Withdrawn channel (channel.settle id r).1 := by
  unfold settle
  split_ifs
  · exact channel.withdrawn_withdraw id
  · exact .of_queue_eq rfl rfl rfl rfl

/-- What becomes of a message that is issued: it is lost, held back or sent. -/
inductive Issues (channel : Channel) (message : Message) : Channel → List Message → Prop
  | lost (next : Channel) (hunheard : channel.isClosed = true ∨ channel.isDeaf = true)
      (hnext : Withdrawn channel next) : Issues channel message next []
  | held (next : Channel) (hready : channel.isReady = false) (hclosed : channel.isClosed = false)
      (hnext : Withdrawn { channel with queue := channel.queue ++ [message] } next) :
      Issues channel message next []
  | sent (next : Channel) (hready : channel.isReady = true) (hclosed : channel.isClosed = false)
      (hdeaf : channel.isDeaf = false) (hnext : Withdrawn channel next) :
      Issues channel message next [message]

variable (channel : Channel)

/-- Of requests that are settled, nothing reaches the compiler. -/
theorem sent?_expire (now : Nat) : (channel.expire now).2.filterMap sent? = [] := by
  simp only [expire, filterMap_map]
  exact filterMap_eq_nil_iff.mpr fun _ _ ↦ rfl

theorem sent?_settle (id : UInt64) (r : Except Failure Json) :
    (channel.settle id r).2.filterMap sent? = [] := by
  unfold settle
  split_ifs <;> rfl

theorem sent?_disconnect : channel.disconnect.2.filterMap sent? = [] := by
  simp only [disconnect, filterMap_map]
  exact filterMap_eq_nil_iff.mpr fun _ _ ↦ rfl

theorem sent?_flush :
    channel.flush.2.filterMap sent? = if channel.isDeaf = true then [] else channel.queue := by
  unfold flush
  dsimp only
  split_ifs with hd
  · rw [filterMap_map]
    exact filterMap_eq_nil_iff.mpr fun _ _ ↦ rfl
  · rw [filterMap_map]
    exact filterMap_some

theorem issues_notify (m : String) (ps : Json) :
    channel.Issues (.notification m ps) (channel.notify m ps).1
      (((channel.notify m ps).2.toOption.getD []).filterMap sent?) := by
  have hs : channel.Withdrawn channel := .of_queue_eq rfl rfl rfl rfl
  unfold notify
  dsimp only
  split_ifs with hc hr hd
  · exact .lost _ (Or.inl hc) hs
  · exact .lost _ (Or.inr hd) hs
  · exact .sent _ hr (Bool.eq_false_iff.mpr hc) (Bool.eq_false_iff.mpr hd) hs
  · exact .held _ (Bool.eq_false_iff.mpr hr) (Bool.eq_false_iff.mpr hc)
      (.of_queue_eq rfl rfl rfl rfl)

theorem issues_request (now : Nat) (m : String) (ps : Json) (l : Bool) :
    channel.Issues (.request channel.nextId m ps) (channel.request now m ps l).1
      ((channel.request now m ps l).2.filterMap sent?) := by
  unfold request
  dsimp only
  split_ifs with hc hr hd
  · exact .lost _ (Or.inl hc) (.of_queue_eq rfl rfl rfl rfl)
  · exact .lost _ (Or.inr hd) (.of_queue_eq rfl rfl rfl rfl)
  · rw [filterMap_cons, sent?_expire]
    refine .sent _ hr (Bool.eq_false_iff.mpr hc) (Bool.eq_false_iff.mpr hd)
      (.trans ?_ (withdrawn_expire _ now))
    exact .of_queue_eq rfl rfl rfl rfl
  · rw [sent?_expire]
    refine .held _ (Bool.eq_false_iff.mpr hr) (Bool.eq_false_iff.mpr hc)
      (.trans ?_ (withdrawn_expire _ now))
    exact .of_queue_eq rfl rfl rfl rfl

end Channel

namespace Host

open Issued (Kept)

/-- What the compiler gets: up to some point all that was issued, in order, but for requests that
were given up. The rest of it is held back as long as the compiler can be reached. -/
structure Follows (host : Host) : Prop where
  passed : ∃ entries : List Issued, entries.map Issued.message = host.sent.filter isIssued ∧
    (∃ first, first <+: host.issued ∧ Kept entries first) ∧
    (host.channel.isClosed = false → host.channel.isDeaf = false →
      ∃ held : List Issued, held.map Issued.message = host.channel.queue ∧
        Kept (entries ++ held) host.issued)
  ready : host.channel.isReady = true → host.channel.queue = []
  closed : host.channel.isClosed = true → host.channel.queue = []
  issued : ∀ entry ∈ host.issued, entry.message.isIssued = true

namespace Follows

variable {host : Host} {message : Message}

theorem withdrawn (h : host.Follows) {next : Channel} (hn : host.channel.Withdrawn next) :
    { host with channel := next }.Follows := by
  obtain ⟨entries, he, hf, hh⟩ := h.passed
  obtain ⟨keep, hk, hq⟩ := hn.queue
  refine ⟨⟨entries, he, hf, fun hc hd ↦ ?_⟩, fun hr ↦ ?_, fun hc ↦ ?_, h.issued⟩
  · obtain ⟨held, hm, hke⟩ :=
      hh (hn.isClosed.symm.trans hc) (hn.isDeaf.symm.trans hd)
    refine ⟨held.filter fun e ↦ keep e.message, ?_, hke.drop hk⟩
    rw [show next.queue = _ from hq, ← hm, filter_map]
    rfl
  · rw [show next.queue = _ from hq, h.ready (hn.isReady.symm.trans hr)]
    rfl
  · rw [show next.queue = _ from hq, h.closed (hn.isClosed.symm.trans hc)]
    rfl

section

variable (h : host.Follows) (hissued : message.isIssued = true)

include h hissued

theorem issued_note : ∀ e ∈ (host.note message).issued, e.message.isIssued = true := by
  refine forall_mem_append.mpr ⟨h.issued, fun e he ↦ ?_⟩
  rw [mem_singleton.mp he]
  exact hissued

/-- A message for a compiler that cannot be reached is lost. -/
theorem lost (hu : host.channel.isClosed = true ∨ host.channel.isDeaf = true) :
    (host.note message).Follows := by
  obtain ⟨entries, he, ⟨x, hf, hk⟩, -⟩ := h.passed
  refine ⟨⟨entries, he, ⟨x, hf.trans (prefix_append _ _), hk⟩, ?_⟩,
    h.ready, h.closed, h.issued_note hissued⟩
  intro hc hd
  obtain hu | hu := hu
  · exact absurd (hc.symm.trans hu) Bool.false_ne_true
  · exact absurd (hd.symm.trans hu) Bool.false_ne_true

/-- Until the compiler is ready, a message is held back behind all others. -/
theorem held (hr : host.channel.isReady = false) (hc : host.channel.isClosed = false) :
    { host.note message with
      channel := { host.channel with queue := host.channel.queue ++ [message] } }.Follows := by
  obtain ⟨entries, he, ⟨x, hf, hk⟩, hh⟩ := h.passed
  refine ⟨⟨entries, he, ⟨x, hf.trans (prefix_append _ _), hk⟩, ?_⟩, ?_, ?_, h.issued_note hissued⟩
  · intro hc hd
    obtain ⟨held, hm, ha⟩ := hh hc hd
    refine ⟨held ++ [⟨message, host.engine.project.store.sources⟩], ?_, ?_⟩
    · rw [map_append, hm]
      rfl
    · rw [← append_assoc]
      exact ha.append (.refl _)
  · exact fun hy ↦ absurd (hr.symm.trans hy) Bool.false_ne_true
  · exact fun hy ↦ absurd (hc.symm.trans hy) Bool.false_ne_true

/-- A compiler that is ready gets a message at once, for nothing is held back. -/
theorem sent (hr : host.channel.isReady = true) (hc : host.channel.isClosed = false)
    (hd : host.channel.isDeaf = false) :
    { host.note message with sent := host.sent ++ [message] }.Follows := by
  obtain ⟨entries, he, -, hh⟩ := h.passed
  obtain ⟨held, hm, ha⟩ := hh hc hd
  obtain rfl : held = [] := map_eq_nil_iff.mp (hm.trans (h.ready hr))
  rw [append_nil] at ha
  let e : Issued := ⟨message, host.engine.project.store.sources⟩
  have hn : Kept (entries ++ [e]) (host.issued ++ [e]) := ha.append (.refl _)
  refine ⟨⟨entries ++ [e], ?_, ⟨_, prefix_rfl, hn⟩, ?_⟩, h.ready, h.closed, h.issued_note hissued⟩
  · rw [map_append, he, filter_append, filter_cons_of_pos hissued]
    rfl
  · intro _ _
    exact ⟨[], (h.ready hr).symm, by rwa [append_nil]⟩

end

variable (h : host.Follows)

include h

theorem issue {message : Message} (hissued : message.isIssued = true) {next : Channel}
    {reached : List Message} (hn : host.channel.Issues message next reached) :
    { host.note message with channel := next, sent := host.sent ++ reached }.Follows := by
  cases hn with
  | lost hu hn =>
    rw [append_nil]
    exact (h.lost hissued hu).withdrawn hn
  | held hr hc hn =>
    rw [append_nil]
    exact (h.held hissued hr hc).withdrawn hn
  | sent hr hc hd hn => exact (h.sent hissued hr hc hd).withdrawn hn

theorem issueOne (e : EngineEvent) : (host.issueOne e).Follows := by
  cases e with
  | noticed n =>
    have hi := host.channel.issues_notify n.method n.params
    exact h.issue rfl hi
  | called call r => exact h.issue rfl (Channel.issues_request _ _ _ _ _)
  | published u diagnostics v => exact h
  | answered t a => exact h

/-- All that was held back goes out when the compiler is ready. -/
theorem flush : (host.pass host.channel.flush).Follows := by
  obtain ⟨entries, he, hf, hhel⟩ := h.passed
  have hs : (host.pass host.channel.flush).sent =
      host.sent ++ if host.channel.isDeaf = true then [] else host.channel.queue :=
    congrArg (host.sent ++ ·) (Channel.sent?_flush host.channel)
  have hq : (host.pass host.channel.flush).channel.queue = [] := by
    simp only [pass, Channel.flush]
    split_ifs <;> rfl
  have hc : (host.pass host.channel.flush).channel.isClosed = host.channel.isClosed := by
    simp only [pass, Channel.flush]
    split_ifs <;> rfl
  have hd : (host.pass host.channel.flush).channel.isDeaf = host.channel.isDeaf := by
    simp only [pass, Channel.flush]
    split_ifs <;> rfl
  refine ⟨?_, fun _ ↦ hq, fun _ ↦ hq, h.issued⟩
  rw [hs, hq, hc, hd]
  by_cases hh : host.channel.isClosed = false ∧ host.channel.isDeaf = false
  · obtain ⟨held, hm, ha⟩ := hhel hh.1 hh.2
    have hissued : (host.channel.queue.filter isIssued) = host.channel.queue := by
      refine filter_eq_self.mpr fun message hms ↦ ?_
      obtain ⟨e, hen, rfl⟩ := mem_map.mp (hm ▸ hms)
      exact h.issued e (ha.sublist.mem (mem_append_right _ hen))
    refine ⟨entries ++ held, ?_, ⟨_, prefix_rfl, ha⟩, fun _ _ ↦ ⟨[], rfl, ?_⟩⟩
    · rw [if_neg (Bool.eq_false_iff.mp hh.2), filter_append, hissued, map_append, he, hm]
    · rwa [append_nil]
  · have hn : (if host.channel.isDeaf = true then [] else host.channel.queue) = [] := by
      split_ifs with hy
      · rfl
      · exact h.closed (by simpa [hy] using hh)
    rw [hn, append_nil]
    exact ⟨entries, he, hf, fun ho hhe ↦ absurd ⟨ho, hhe⟩ hh⟩

/-- An answer to the compiler is none of the messages that were issued. -/
theorem reply (hr : message.isIssued = false) :
    { host with sent := host.sent ++ [message] }.Follows := by
  have hs : (host.sent ++ [message]).filter isIssued = host.sent.filter isIssued := by
    rw [filter_append, filter_cons_of_neg (Bool.eq_false_iff.mp hr), filter_nil, append_nil]
  refine ⟨?_, h.ready, h.closed, h.issued⟩
  dsimp only
  rw [hs]
  exact h.passed

theorem receive (message : Message) : (host.pass (host.channel.receive message)).Follows := by
  have hn : (host.pass (host.channel, [])).Follows := by
    simpa [pass] using h
  cases message with
  | notification m ps =>
    unfold Channel.receive
    dsimp only
    split_ifs
    · exact h.flush
    · exact hn
  | response id r e =>
    have hs := h.withdrawn (host.channel.withdrawn_settle id (Channel.resultOf r e))
    simpa [pass, Channel.receive, Channel.sent?_settle] using hs
  | progress id m v =>
    unfold Channel.receive
    dsimp only
    split_ifs
    · exact hn
    · exact hn
  | request id m ps =>
    unfold Channel.receive
    dsimp only
    split_ifs
    · exact hn
    · exact h.reply rfl

theorem disconnect : (host.pass host.channel.disconnect).Follows := by
  obtain ⟨entries, he, hf, -⟩ := h.passed
  refine ⟨⟨entries, ?_, hf, nofun⟩, fun _ ↦ rfl, fun _ ↦ rfl, h.issued⟩
  rw [pass, Channel.sent?_disconnect, append_nil]
  exact he

theorem deafen : { host with channel := host.channel.deafen }.Follows := by
  obtain ⟨entries, he, hf, -⟩ := h.passed
  exact ⟨⟨entries, he, hf, nofun⟩, h.ready, h.closed, h.issued⟩

theorem step (i : HostInput) : (host.step i).Follows := by
  cases i with
  | engine i =>
    have hf : ∀ (es : List EngineEvent) (host : Host), host.Follows →
        (es.foldl Host.issueOne host).Follows := by
      intro es
      induction es with
      | nil => exact fun _ h ↦ h
      | cons e r ih => exact fun host h ↦ ih _ (h.issueOne e)
    exact hf _ _ ⟨h.passed, h.ready, h.closed, h.issued⟩
  | receive message => exact h.receive message
  | expire now =>
    have he := h.withdrawn (host.channel.withdrawn_expire now)
    simpa [Host.step, pass, Channel.sent?_expire] using he
  | withdraw id => exact h.withdrawn (host.channel.withdrawn_withdraw id)
  | disconnect => exact h.disconnect
  | deafen => exact h.deafen

end Follows

end Host

namespace Worker

/-- Only notices matter for the documents. -/
theorem foldl_documentsAfter_filter (ms : List Message) (ds : Table Uri Source) :
    (ms.filter isNotification).foldl documentsAfter ds = ms.foldl documentsAfter ds := by
  induction ms generalizing ds with
  | nil => rfl
  | cons message r ih => cases message <;> exact ih _

end Worker

namespace Issued

/-- Each message is recorded with the documents as the compiler has them once it has handled all
messages up to this one. -/
def Recorded (ds : Table Uri Source) : List Issued → Prop
  | [] => True
  | e :: r =>
    e.documents = documentsAfter ds e.message ∧ Recorded e.documents r

/-- The documents that a compiler has after some of the messages. -/
def replay (ds : Table Uri Source) (entries : List Issued) : Table Uri Source :=
  (entries.map message).foldl documentsAfter ds

theorem recorded_append (ds : Table Uri Source) (x later : List Issued) :
    Recorded ds (x ++ later) ↔ Recorded ds x ∧ Recorded (replay ds x) later := by
  induction x generalizing ds with
  | nil => exact ⟨fun h ↦ ⟨trivial, h⟩, And.right⟩
  | cons e r ih =>
    rw [cons_append, Recorded, Recorded, ih, and_assoc]
    refine and_congr_right fun he ↦ ?_
    have hr : replay ds (e :: r) = replay e.documents r := by
      rw [he]
      rfl
    rw [hr]

theorem replay_append (ds : Table Uri Source) (x later : List Issued) :
    replay ds (x ++ later) = replay (replay ds x) later := by
  rw [replay, map_append, foldl_append]
  rfl

theorem replay_filter (ds : Table Uri Source) (entries : List Issued) :
    replay ds (entries.filter isNotice) = replay ds entries := by
  rw [replay, replay, ← foldl_documentsAfter_filter (entries.map message), filter_map]
  rfl

theorem Kept.replay_eq {entries issued : List Issued} (h : Kept entries issued)
    (ds : Table Uri Source) : replay ds entries = replay ds issued := by
  rw [← replay_filter, h.notices, replay_filter]

/-- The documents after some messages are those that the last notice among them is recorded with. -/
theorem Recorded.replay_eq {ds : Table Uri Source} {issued : List Issued} (h : Recorded ds issued) :
    replay ds issued = ((issued.filter isNotice).getLast?.map Issued.documents).getD ds := by
  induction issued using reverseRecOn with
  | nil => rfl
  | append_singleton l e ih =>
    obtain ⟨he, hen, -⟩ := (recorded_append ds l [e]).mp h
    rw [replay_append, filter_append]
    cases hn : e.isNotice with
    | true =>
      rw [filter_cons_of_pos hn, filter_nil, getLast?_concat]
      exact hen.symm
    | false =>
      rw [filter_cons_of_neg (Bool.eq_false_iff.mp hn), filter_nil, append_nil, ← ih he]
      rw [← replay_filter, filter_cons_of_neg (Bool.eq_false_iff.mp hn)]
      rfl

end Issued

namespace Host

open Issued (Kept Recorded replay)

/-- Every message that was issued is recorded with the documents that the messages up to this one
leave, and every request is for a program from a uri that arrives as it is. -/
structure Dated (host : Host) : Prop where
  recorded : Recorded empty host.issued
  normal : host.engine.Normal
  asked : ∀ entry ∈ host.issued, ∀ id method params, entry.message = .request id method params →
    method = compileMethod ∧ ∃ root, root.IsNormal ∧ params = compileParams root

/-- The compiler will know of all open documents. -/
def Current (host : Host) : Prop :=
  replay empty host.issued = host.engine.project.store.sources

variable {host : Host}

theorem engine_issueOne (host : Host) (e : EngineEvent) :
    (host.issueOne e).engine = host.engine := by
  cases e <;> rfl

theorem issued_issueOne (host : Host) (e : EngineEvent) :
    (host.issueOne e).issued = host.issued ++ match e with
      | .noticed n => [⟨.notification n.method n.params, host.engine.project.store.sources⟩]
      | .called _ r => [⟨.request host.channel.nextId compileMethod (compileParams r),
          host.engine.project.store.sources⟩]
      | _ => [] := by
  cases e with
  | noticed n => rfl
  | called call r => rfl
  | published u diagnostics v => exact (append_nil _).symm
  | answered t a => exact (append_nil _).symm

/-- Calls and answers leave the compiler's documents alone. -/
theorem Dated.issue (h : host.Dated) (hc : host.Current) {es : List EngineEvent}
    (hn : es.filterMap EngineEvent.notice? = [])
    (hca : ∀ en ∈ es.filterMap EngineEvent.called?, en.2.IsNormal) :
    (es.foldl issueOne host).Dated ∧ (es.foldl issueOne host).Current := by
  induction es generalizing host with
  | nil => exact ⟨h, hc⟩
  | cons e tl ih =>
    have he := host.engine_issueOne e
    have hissued := host.issued_issueOne e
    rw [filterMap_cons] at hn hca
    cases e with
    | noticed n => cases hn
    | called call r =>
      obtain ⟨hro, hr⟩ := forall_mem_cons.mp hca
      refine ih ⟨?_, ?_, ?_⟩ ?_ hn hr
      · rw [hissued]
        exact (Issued.recorded_append _ _ _).mpr ⟨h.recorded, hc.symm, trivial⟩
      · rw [he]
        exact h.normal
      · rw [hissued]
        refine forall_mem_append.mpr ⟨h.asked, fun en hen id m ps hm ↦ ?_⟩
        rw [mem_singleton.mp hen] at hm
        obtain ⟨-, rfl, rfl⟩ := request.inj hm
        exact ⟨rfl, r, hro, rfl⟩
      · rw [Current, he, hissued, Issued.replay_append]
        exact hc
    | published u diagnostics v => exact ih h hc hn hca
    | answered t a => exact ih h hc hn hca

/-- A notice is recorded with the documents that it leaves. -/
theorem Dated.notice (h : host.Dated) {n : Notice} (hf : n.Fits)
    (hs : noted (replay empty host.issued) n = host.engine.project.store.sources) :
    (host.issueOne (.noticed n)).Dated ∧ (host.issueOne (.noticed n)).Current := by
  have hissued := host.issued_issueOne (.noticed n)
  have ha : documentsAfter (replay empty host.issued)
      (.notification n.method n.params) = host.engine.project.store.sources := by
    rw [documentsAfter, Notice.ofNotification?_params hf]
    exact hs
  refine ⟨⟨?_, h.normal, ?_⟩, ?_⟩
  · rw [hissued]
    exact (Issued.recorded_append _ _ _).mpr ⟨h.recorded, ha.symm, trivial⟩
  · rw [hissued]
    refine forall_mem_append.mpr ⟨h.asked, fun e he id m ps hm ↦ ?_⟩
    rw [mem_singleton.mp he] at hm
    cases hm
  · rw [Current, hissued, Issued.replay_append]
    exact ha

theorem Dated.step (h : host.Dated) (hc : host.Current) {i : HostInput}
    (hi : i.Fits) : (host.step i).Dated ∧ (host.step i).Current := by
  cases i with
  | engine i =>
    have hf := hi i rfl
    have hn := h.normal.step hf
    have hca : ∀ e ∈ (host.engine.step i).2.filterMap EngineEvent.called?, e.2.IsNormal := by
      intro e hen
      obtain ho | hfo := host.engine.callsKnown_step i e hen
      · exact hn.opened e.2 ho
      · exact hn.found e.2 hfo
    have hd : { host with engine := (host.engine.step i).1 }.Dated := ⟨h.recorded, hn, h.asked⟩
    cases host.engine.notifies_step i with
    | nothing hnot hs => exact hd.issue (hc.trans hs.symm) hnot hca
    | first n later hg he hl hs =>
      rw [he] at hca
      have hno : noted (replay empty host.issued) n =
          (host.engine.step i).1.project.store.sources := by
        rw [hs, hc]
      obtain ⟨hd, hc⟩ := hd.notice (hf.notice n hg) hno
      simp only [Host.step, he, foldl_cons]
      exact hd.issue hc hl hca
  | receive message => exact ⟨⟨h.recorded, h.normal, h.asked⟩, hc⟩
  | expire now => exact ⟨⟨h.recorded, h.normal, h.asked⟩, hc⟩
  | withdraw id => exact ⟨⟨h.recorded, h.normal, h.asked⟩, hc⟩
  | disconnect => exact ⟨⟨h.recorded, h.normal, h.asked⟩, hc⟩
  | deafen => exact ⟨⟨h.recorded, h.normal, h.asked⟩, hc⟩

theorem invariant_run (h : host.Follows ∧ host.Dated ∧ host.Current) {is : List HostInput}
    (hin : ∀ i ∈ is, i.Fits) :
    (host.run is).Follows ∧ (host.run is).Dated ∧ (host.run is).Current := by
  induction is generalizing host with
  | nil => exact h
  | cons i r ih =>
    obtain ⟨hf, hd, hc⟩ := h
    obtain ⟨hi, hr⟩ := forall_mem_cons.mp hin
    exact ih ⟨hf.step i, hd.step hc hi⟩ hr

theorem invariant_start (c : Config) (ann : Annotator) :
    (start c ann).Follows ∧ (start c ann).Dated ∧ (start c ann).Current := by
  refine ⟨⟨⟨[], rfl, ⟨[], prefix_rfl, .refl _⟩, fun _ _ ↦ ⟨[], rfl, .refl _⟩⟩, nofun, nofun,
    nofun⟩, ⟨trivial, Engine.normal_start c ann, nofun⟩, rfl⟩

/-- The messages that a compiler has handled are those of some of the entries, in order and with all
notices up to the last of them. -/
theorem Follows.handled (h : host.Follows) {handled : List Message} (hh : handled <+: host.sent) :
    ∃ entries l, entries.map Issued.message = handled.filter isIssued ∧
      l <+: host.issued ∧ Kept entries l := by
  obtain ⟨entries, he, ⟨x, hf, hk⟩, -⟩ := h.passed
  obtain ⟨r, hr⟩ := hh
  rw [← hr, filter_append] at he
  obtain ⟨er, later, rfl, hea, -⟩ := map_eq_append_iff.mp he
  obtain ⟨l, b, rfl, hb, -⟩ := hk.split
  exact ⟨er, l, hea, (prefix_append _ _).trans hf, hb⟩

section

variable {entries : List Issued} {handled : List Message}
  (h : entries.map Issued.message = handled.filter isIssued)

include h

theorem filter_isNotification_eq :
    handled.filter isNotification = (entries.filter Issued.isNotice).map Issued.message := by
  have hb : handled.filter isNotification = (handled.filter isIssued).filter isNotification := by
    rw [filter_filter]
    refine filter_congr fun message _ ↦ ?_
    cases message <;> rfl
  rw [hb, ← h, filter_map]
  rfl

theorem foldl_documentsAfter_eq (ds : Table Uri Source) :
    handled.foldl documentsAfter ds = replay ds entries := by
  rw [← foldl_documentsAfter_filter, filter_isNotification_eq h]
  exact Issued.replay_filter ds entries

end

/-- A compiler that has handled any of the messages that reach it, and so a number of notices, has
the documents as they were right after the last of these notices was issued. A request that comes
next is answered with the program of the documents that were open when the request was issued, and
of files. -/
theorem replica_after_handling (config : Config) (annotate : Annotator) (inputs : List HostInput)
    (hinputs : ∀ input ∈ inputs, input.Fits) (readFile : Uri → Option String)
    (handled : List Message) (hhandled : handled <+: ((start config annotate).run inputs).sent) :
    let host := (start config annotate).run inputs
    let worker := (handleAll { annotate, builtins := config.builtins } readFile handled).1
    let told := host.issued.filter Issued.isNotice
    let count := handled.countP isNotification
    (count ≤ told.length ∧ worker.documents =
      ((told.take count).getLast?.map Issued.documents).getD empty) ∧
    ∀ id method params disk, handled ++ [.request id method params] <+: host.sent →
      ∃ root documents, method = compileMethod ∧ params = compileParams root ∧
        ⟨.request id method params, documents⟩ ∈ host.issued ∧
        (worker.handle disk (.request id method params)).2 =
          compile { annotate, builtins := config.builtins, documents } disk id root := by
  intro host worker told count
  obtain ⟨hfollows, hdated, -⟩ := invariant_run (invariant_start config annotate) hinputs
  have hworker : worker =
      { annotate, builtins := config.builtins,
        documents := handled.foldl documentsAfter empty } :=
    documents_handleAll _ _ _
  constructor
  · obtain ⟨entries, before, hentries, ⟨behind, hbefore⟩, hkept⟩ := hfollows.handled hhandled
    have hrecorded : Issued.Recorded empty before := by
      have hall := hdated.recorded
      rw [← hbefore] at hall
      exact ((Issued.recorded_append _ _ _).mp hall).1
    have htold : told = before.filter Issued.isNotice ++ behind.filter Issued.isNotice := by
      rw [← filter_append, hbefore]
    have hcount : count = (before.filter Issued.isNotice).length := by
      rw [← hkept.notices, show count = (handled.filter isNotification).length from
        countP_eq_length_filter, filter_isNotification_eq hentries, length_map]
    refine ⟨by rw [hcount, htold, length_append]; omega, ?_⟩
    rw [hworker, htold, hcount, take_left, ← hrecorded.replay_eq, ← hkept.replay_eq]
    exact foldl_documentsAfter_eq hentries _
  · intro id method params disk hnext
    obtain ⟨entries, before, hentries, ⟨behind, hbefore⟩, hkept⟩ := hfollows.handled hnext
    rw [filter_append] at hentries
    obtain ⟨earlier, last, rfl, hearlier, hlast⟩ := map_eq_append_iff.mp hentries
    obtain ⟨entry, rfl, hmessage⟩ := map_eq_singleton_iff.mp hlast
    -- The request was issued after all notices that are handled before it, and no others.
    obtain ⟨first, rest, rfl, hfirst, hrest⟩ := hkept.split
    obtain ⟨skipped, later, rfl⟩ := append_of_mem (singleton_sublist.mp hrest.sublist)
    have hskipped : skipped.filter Issued.isNotice = [] := by
      have hnotices := hrest.notices
      rw [filter_append, filter_cons_of_neg (by simp [Issued.isNotice, hmessage,
        isNotification])] at hnotices
      exact (append_eq_nil_iff.mp hnotices.symm).1
    have hissued : host.issued = (first ++ skipped) ++ entry :: (later ++ behind) := by
      rw [← hbefore]
      simp only [append_assoc, cons_append]
    have hdocuments : entry.documents = worker.documents := by
      have hall := hdated.recorded
      rw [hissued] at hall
      obtain ⟨-, hentry, -⟩ := (Issued.recorded_append _ _ _).mp hall
      rw [hentry, hmessage, hworker, foldl_documentsAfter_eq hearlier, hfirst.replay_eq,
        ← Issued.replay_filter _ (first ++ skipped), filter_append, hskipped, append_nil,
        Issued.replay_filter]
      rfl
    have hmem : entry ∈ host.issued := hissued ▸ mem_append_right _ mem_cons_self
    obtain ⟨rfl, root, hroot, rfl⟩ := hdated.asked entry hmem id method params hmessage
    refine ⟨root, entry.documents, rfl, rfl, hmessage ▸ hmem, ?_⟩
    rw [hdocuments, hworker]
    simp only [handle, respond, compileParamsOf_compileParams hroot]
    rfl

/-- A script is opened before the compiler is ready, and then its first word is changed. -/
def storyChanged : List HostInput :=
  [.engine (.request 0 (.openDocument mainUri 1 "one day\n")),
    .receive (.notification readyMethod .null),
    .engine (.request 1 (.changeDocument mainUri 2 [⟨some ⟨⟨0, 0⟩, ⟨0, 3⟩⟩, none, "some"⟩]))]

theorem fits_storyChanged : ∀ i ∈ storyChanged, i.Fits := by
  have hu : mainUri.IsNormal := by rfl
  have hr : (⟨⟨0, 0⟩, ⟨0, 3⟩⟩ : Range).Fits := ⟨⟨by decide, by decide⟩, by decide, by decide⟩
  simp only [storyChanged, forall_mem_cons, HostInput.Fits, HostInput.engine.injEq,
    reduceCtorEq, forall_eq', IsEmpty.forall_iff, implies_true, not_mem_nil, true_and, and_true]
  refine ⟨⟨?_, nofun⟩, ?_, nofun⟩
  · rintro n ⟨⟩
    exact ⟨hu, nofun⟩
  · rintro n ⟨⟩
    refine ⟨hu, ?_⟩
    rintro u v cs ⟨⟩ c hc
    rw [mem_singleton.mp hc]
    exact ⟨fun range hf ↦ Option.some.inj hf ▸ hr, nofun⟩

/-- Once the compiler has handled both notices it has the second version, and of this it makes the
program that it is asked for next. -/
theorem replica_after_handling_storyChanged :
    let host := (start {} fun _ ↦ default).run storyChanged
    let worker := (handleAll { annotate := fun _ ↦ default, builtins := Config.builtins {} }
      (fun _ ↦ none) (host.sent.take 3)).1
    worker.documents.entries = [(mainUri, ⟨2, "some day\n"⟩)] ∧
      ∃ root documents, compileParams mainUri = compileParams root ∧
        ⟨.request 2 compileMethod (compileParams mainUri), documents⟩ ∈ host.issued ∧
        (worker.handle (fun _ ↦ none) (.request 2 compileMethod (compileParams mainUri))).2 =
            compile { annotate := fun _ ↦ default, builtins := Config.builtins {}, documents }
              (fun _ ↦ none) 2 root := by
  intro host worker
  have hsent : host.sent.take 4 = host.sent.take 3 ++
      [.request 2 compileMethod (compileParams mainUri)] := by rfl
  have htold : (((host.issued.filter Issued.isNotice).take
      ((host.sent.take 3).countP isNotification)).getLast?.map Issued.documents).getD
        empty = empty.insert mainUri ⟨2, "some day\n"⟩ := by rfl
  obtain ⟨⟨-, hdocuments⟩, hanswer⟩ := replica_after_handling {} (fun _ ↦ default) storyChanged
    fits_storyChanged (fun _ ↦ none) (host.sent.take 3) (List.take_prefix _ _)
  obtain ⟨root, documents, -, hcompile⟩ := hanswer 2 compileMethod
    (compileParams mainUri) (fun _ ↦ none) (hsent ▸ List.take_prefix 4 _)
  exact ⟨congrArg entries (hdocuments.trans htold), root, documents, hcompile⟩

/-- A file with a host and a drive. Its uri comes from a text with an empty segment before the
drive; the text of the uri itself stands for the drive alone. -/
def driveUri : Uri := ⟨"file://[::1]/C:"⟩

/-- The compiler keeps a document under the uri of its uri's text, so it lacks one for which this is
another uri. -/
theorem replica_lacks_drive :
    let host := (start {} fun _ ↦ default).run
      [.receive (.notification readyMethod .null),
        .engine (.request 0 (.openDocument driveUri 1 "one day\n"))]
    let worker := (handleAll { annotate := fun _ ↦ default, builtins := Config.builtins {} }
      (fun _ ↦ none) (host.sent.take 1)).1
    (Uri.parse "file://[::1]//C:").toOption = some driveUri ∧
      (host.sent.take 1).countP isNotification = 1 ∧
      (host.issued.filter Issued.isNotice).map (fun entry ↦ entry.documents.entries) =
        [[(driveUri, ⟨1, "one day\n"⟩)]] ∧
      worker.documents.entries = [(⟨"file:///C:"⟩, ⟨1, "one day\n"⟩)] := by
  decide +kernel

end Host

end StoryScript
