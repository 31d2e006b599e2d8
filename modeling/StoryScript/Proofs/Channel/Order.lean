import StoryScript.Proofs.Channel.Ledger

/-!
The order in which messages reach the compiler. What a host issues is held back until the compiler is
ready, then let go, and from then on sent at once. In every run of a connection the messages on the
wire are some of those that were accepted, in the order in which they were issued; those that are
missing are requests whose callers went on, or gave up, before the compiler was ready
(`Connection.sends_in_order`).
-/

namespace StoryScript

open Bool List Message

variable (timeout : Option Nat)

namespace Connection

variable {m : Message}

open ChannelEvent (settledIds)

/-- The message that an input issues. -/
def issued? (connection : Connection) : ConnectionInput → Option Message
  | .request _ mt ps _ => some (.request connection.channel.nextId mt ps)
  | .notify mt ps => some (.notification mt ps)
  | _ => none

/-- The message that an input issues, unless it is refused. -/
def accepted? (connection : Connection) (i : ConnectionInput) : Option Message :=
  if connection.channel.refuses then none else connection.issued? i

/-- Of what some events send, the messages that the host issues. -/
def issuedIn (es : List ChannelEvent) : List Message :=
  (es.filterMap ChannelEvent.sent?).filter isIssued

/-- Whether a message is no request whose caller goes on or gives up. -/
def keeps (i : ConnectionInput) (es : List ChannelEvent) (m : Message) : Bool :=
  m.id?.all fun id ↦ i ≠ .drop id ∧ id ∉ settledIds es

namespace Moment

def issued? (mo : Moment) : Option Message :=
  mo.before.issued? mo.input

def accepted? (mo : Moment) : Option Message :=
  mo.before.accepted? mo.input

def keeps (mo : Moment) : Message → Bool :=
  Connection.keeps mo.input mo.events

end Moment

/-- The messages that the host has put on the wire. -/
def wire (moments : List Moment) : List Message :=
  moments.flatMap fun mo ↦ issuedIn mo.events

/-- The messages that were accepted and are no requests whose callers went on or gave up since. -/
def kept : List Moment → List Message
  | [] => []
  | mo :: moments =>
    (mo.accepted?.toList.filter fun m ↦ (mo :: moments).all fun l ↦ l.keeps m) ++ kept moments

/-- The messages that were issued. -/
def issued (moments : List Moment) : List Message :=
  moments.filterMap Moment.issued?

/-- The messages that were accepted. -/
def accepted (moments : List Moment) : List Message :=
  moments.filterMap Moment.accepted?

variable {connection after : Connection} {i : ConnectionInput} {es : List ChannelEvent}
  {moments : List Moment} {is : List ConnectionInput}

section

variable (moments) (mo : Moment)

theorem wire_concat : wire (moments ++ [mo]) = wire moments ++ issuedIn mo.events := by
  rw [wire, flatMap_append, flatMap_singleton]
  rfl

theorem accepted_concat : accepted (moments ++ [mo]) = accepted moments ++ mo.accepted?.toList := by
  rw [accepted, filterMap_append]
  cases h : mo.accepted? <;> simp [accepted, h]

end

theorem wire_cons (mo : Moment) (moments : List Moment) :
    wire (mo :: moments) = issuedIn mo.events ++ wire moments := by
  rw [wire, flatMap_cons]
  rfl

theorem accepted_cons (mo : Moment) (moments : List Moment) :
    accepted (mo :: moments) = mo.accepted?.toList ++ accepted moments := by
  cases h : mo.accepted? <;> simp [accepted, h]

theorem wire_append (moments more : List Moment) :
    wire (moments ++ more) = wire moments ++ wire more := by
  rw [wire, flatMap_append]
  rfl

theorem isIssued_of_accepted? (h : connection.accepted? i = some m) : m.isIssued = true := by
  rw [accepted?] at h
  split at h
  · cases h
  · cases i with
    | request | notify =>
      cases h
      rfl
    | _ => cases h

/-- No message is accepted that is not issued. -/
theorem accepted_sublist_issued (moments : List Moment) :
    (accepted moments).Sublist (issued moments) := by
  induction moments using reverseRecOn with
  | nil => exact .slnil
  | append_singleton moments mo ih =>
    have hl : mo.accepted?.toList.Sublist mo.issued?.toList := by
      rw [Moment.accepted?, Connection.accepted?]
      split
      · exact nil_sublist _
      · exact .refl _
    rw [accepted_concat, issued, filterMap_append]
    cases h : mo.issued? with
    | none =>
      rw [h] at hl
      simpa [sublist_nil.mp hl, issued, h] using ih
    | some m =>
      rw [h] at hl
      simpa [issued, h] using ih.append hl

theorem kept_concat (moments : List Moment) (mo : Moment) :
    kept (moments ++ [mo]) = (kept moments ++ mo.accepted?.toList).filter mo.keeps := by
  induction moments with
  | nil => simp [kept]
  | cons x moments ih =>
    have hk : (x.accepted?.toList.filter fun m ↦ (x :: (moments ++ [mo])).all fun l ↦ l.keeps m) =
          (x.accepted?.toList.filter fun m ↦
            (x :: moments).all fun l ↦ l.keeps m).filter mo.keeps := by
      rw [filter_filter]
      refine filter_congr fun m _ ↦ ?_
      rw [← cons_append, all_append, Bool.and_comm]
      simp
    rw [cons_append, kept, ih, hk, kept, append_assoc, ← filter_append]

theorem issuedIn_append (es more : List ChannelEvent) :
    issuedIn (es ++ more) = issuedIn es ++ issuedIn more := by
  simp [issuedIn]

theorem issuedIn_sentNow (h : m.isIssued = true) :
    issuedIn (connection.sentNow m) = if connection.channel.isReady then [m] else [] := by
  rw [sentNow]
  split <;> simp [issuedIn, ChannelEvent.sent?, h]

theorem issuedIn_map_sent {ms : List Message} (h : ∀ m ∈ ms, m.isIssued = true) :
    issuedIn (ms.map .sent) = ms := by
  have hs : (ms.map ChannelEvent.sent).filterMap ChannelEvent.sent? = ms := by
    rw [filterMap_map]
    exact filterMap_some
  rw [issuedIn, hs, filter_eq_self.mpr h]

theorem issuedIn_of_idle (h : connection.Idle i es) : issuedIn es = [] := by
  rw [issuedIn, filter_eq_nil_iff]
  intro m hm
  obtain ⟨e, he, hs⟩ := mem_filterMap.mp hm
  exact eq_false_iff.mp (h.sent e he m hs)

/-- What a step does to the wire and to what is held back. -/
inductive Passes (connection : Connection) (i : ConnectionInput) (after : Connection)
    (es : List ChannelEvent) : Prop
  /-- Before the compiler is ready, nothing is sent. -/
  | hold (hready : connection.channel.isReady = false) (hafter : after.channel.isReady = false)
      (hwire : issuedIn es = [])
      (hqueue : after.channel.queue = (connection.channel.queue ++ (connection.accepted? i).toList).filter
        (keeps i es) ∨ after.channel.isClosed = true)
  /-- Once it is ready, what is accepted is sent. -/
  | pass (hready : connection.channel.isReady = true) (hafter : after.channel.isReady = true)
      (hwire : issuedIn es = (connection.accepted? i).toList)
  /-- When it gets ready and listens, it is sent what was held back. -/
  | release (hready : connection.channel.isReady = false) (hafter : after.channel.isReady = true)
      (hacc : connection.accepted? i = none)
      (hwire : issuedIn es = connection.channel.queue ∨
        issuedIn es = [] ∧ connection.channel.isDeaf = true)

theorem passes_of_silent (hr : after.channel.isReady = connection.channel.isReady)
    (ha : connection.accepted? i = none) (hw : issuedIn es = [])
    (hq : after.channel.queue = connection.channel.queue.filter (keeps i es) ∨
      after.channel.isClosed = true) :
    connection.Passes i after es := by
  cases hb : connection.channel.isReady with
  | true => exact .pass hb (hr.trans hb) (by rw [hw, ha]; rfl)
  | false =>
    refine .hold hb (hr.trans hb) hw ?_
    rwa [ha, Option.toList_none, append_nil]

theorem passes_of_accepted (hi : m.isIssued = true)
    (hr : after.channel.isReady = connection.channel.isReady)
    (ha : connection.accepted? i = some m)
    (hw : issuedIn es = issuedIn (connection.sentNow m))
    (hq : connection.channel.isReady = false →
      after.channel.queue = (connection.channel.queue ++ [m]).filter (keeps i es)) :
    connection.Passes i after es := by
  rw [issuedIn_sentNow hi] at hw
  cases hb : connection.channel.isReady with
  | true =>
    rw [hb, if_pos rfl] at hw
    exact .pass hb (hr.trans hb) (by rw [hw, ha]; rfl)
  | false =>
    rw [hb, if_neg Bool.false_ne_true] at hw
    exact .hold hb (hr.trans hb) hw (.inl (by rw [hq hb, ha]; rfl))

theorem filter_keeps_of_stay (hd : ∀ id, i ≠ .drop id) (hs : settledIds es = [])
    (ms : List Message) : ms.filter (keeps i es) = ms := by
  refine filter_eq_self.mpr fun m _ ↦ ?_
  simp [keeps, hd, hs]

theorem filter_keeps_of_settled {id : UInt64} (hd : ∀ o, i ≠ .drop o)
    (hs : settledIds es = [id]) (ms : List Message) :
    ms.filter (keeps i es) = ms.filter fun m ↦ m.id? ≠ some id := by
  refine filter_congr fun m _ ↦ ?_
  cases hi : m.id? <;> simp [keeps, hi, hd, hs]

theorem filter_keeps_drop (id : UInt64) (ms : List Message) :
    ms.filter (keeps (.drop id) []) = ms.filter fun m ↦ m.id? ≠ some id := by
  refine filter_congr fun m _ ↦ ?_
  cases hi : m.id? <;> simp [keeps, hi, settledIds, eq_comm]

theorem accepted?_of_refuses (h : connection.channel.refuses = true) (i : ConnectionInput) :
    connection.accepted? i = none :=
  if_pos h

theorem Takes.passes (ht : connection.Takes i after es)
    (hq : ∀ m ∈ connection.channel.queue, m.isIssued = true) :
    connection.Passes i after es := by
  cases ht with
  | refused hre =>
    have ha := accepted?_of_refuses hre
    cases hr : connection.channel.isReady with
    | true => exact .pass hr hr (by rw [ha]; rfl)
    | false =>
      have hc : connection.channel.isClosed = true := by
        simpa [Channel.refuses, hr] using hre
      exact passes_of_silent rfl (ha _) rfl (.inr hc)
  | @lapsed _ mt ps _ hre =>
    refine passes_of_accepted rfl rfl (if_neg (eq_false_iff.mp hre)) ?_ fun _ ↦ ?_
    · rw [issuedIn_append]
      exact append_nil _
    · have hid : (request connection.channel.nextId mt ps).id? =
          some connection.channel.nextId := rfl
      rw [filter_keeps_of_settled (by simp) (by simp [settledIds_append]; rfl), filter_append]
      simp [hid]
  | @accepted _ mt ps _ hre =>
    refine passes_of_accepted rfl rfl (if_neg (eq_false_iff.mp hre)) rfl fun hr ↦ ?_
    rw [filter_keeps_of_stay (by simp) (settledIds_sentNow _)]
    exact if_neg (eq_false_iff.mp hr)
  | notified hre =>
    refine passes_of_accepted rfl rfl (if_neg (eq_false_iff.mp hre)) rfl fun hr ↦ ?_
    rw [filter_keeps_of_stay (by simp) (settledIds_sentNow _)]
    exact if_neg (eq_false_iff.mp hr)
  | flushed hc hr hd =>
    exact .release hr rfl (ite_self _) (.inl (issuedIn_map_sent hq))
  | unheard _ hr hd => exact .release hr rfl (ite_self _) (.inr ⟨rfl, hd⟩)
  | answered =>
    exact passes_of_silent rfl (ite_self _) rfl (.inl (filter_keeps_of_stay (by simp) rfl _).symm)
  | resumed | expired =>
    exact passes_of_silent rfl (ite_self _) rfl (.inl (filter_keeps_of_settled (by simp) rfl _).symm)
  | dropped =>
    exact passes_of_silent rfl (ite_self _) rfl (.inl (filter_keeps_drop _ _).symm)
  | disconnected => exact passes_of_silent rfl (ite_self _) rfl (.inr rfl)
  | deafened =>
    exact passes_of_silent rfl (ite_self _) rfl (.inl (filter_keeps_of_stay (by simp) rfl _).symm)
  | idle hi =>
    have ha : connection.accepted? i = none := by
      cases i with
      | request => cases hi.request
      | notify mt ps => exact if_pos (hi.notify mt ps rfl)
      | _ => exact ite_self _
    exact passes_of_silent rfl ha (issuedIn_of_idle hi)
      (.inl (filter_keeps_of_stay hi.drop (settledIds_of_quiet hi.replies) _).symm)

/-- What holds of a connection with some history. -/
structure Ordered (moments : List Moment) (connection : Connection) : Prop where
  drained : connection.Drained
  issued : ∀ m ∈ connection.channel.queue, m.isIssued = true
  sublist : (wire moments ++ connection.channel.queue).Sublist (accepted moments)
  quiet : connection.channel.isReady = false → wire moments = []
  held : connection.channel.isReady = false → connection.channel.isClosed = false →
    connection.channel.queue = kept moments

theorem Ordered.step (h : Ordered moments connection) (i : ConnectionInput) :
    Ordered (moments ++ [⟨connection, i⟩]) (connection.step i).1 := by
  have ht := takes_step connection i
  have hd := h.drained.step ht
  cases ht.passes h.issued with
  | hold hr ha hw hq =>
    have hk : (connection.step i).1.channel.queue.Sublist
        (connection.channel.queue ++ (connection.accepted? i).toList) := by
      obtain hq | hc := hq
      · exact hq ▸ filter_sublist
      · exact hd.queue_of_closed hc ▸ nil_sublist _
    have hqu : wire (moments ++ [⟨connection, i⟩]) = [] := by
      rw [wire_concat, h.quiet hr]
      exact hw
    refine ⟨hd, fun m hm ↦ ?_, ?_, fun _ ↦ hqu, fun _ hc ↦ ?_⟩
    · obtain ho | hn := mem_append.mp (hk.subset hm)
      · exact h.issued m ho
      · exact isIssued_of_accepted? (Option.mem_toList.mp hn)
    · have hb := h.sublist
      rw [h.quiet hr, nil_append] at hb
      rw [hqu, nil_append, accepted_concat]
      exact hk.trans (hb.append (.refl _))
    · have hop : connection.channel.isClosed = false := by
        rw [eq_false_iff] at hc ⊢
        exact fun hb ↦ hc (ht.isClosed.mpr (.inl hb))
      rw [kept_concat, ← h.held hr hop]
      exact hq.resolve_right (eq_false_iff.mp hc)
  | pass hr ha hw =>
    have hq := hd.queue_of_ready ha
    have hb := h.sublist
    rw [h.drained.queue_of_ready hr, append_nil] at hb
    refine ⟨hd, by simp [hq], ?_, by simp [ha], by simp [ha]⟩
    rw [wire_concat, accepted_concat, hq, append_nil]
    exact hb.append (hw ▸ .refl _)
  | release hr ha hac hw =>
    have hq := hd.queue_of_ready ha
    refine ⟨hd, by simp [hq], ?_, by simp [ha], by simp [ha]⟩
    have hl : Moment.accepted? ⟨connection, i⟩ = none := hac
    rw [wire_concat, accepted_concat, hq, hl, Option.toList_none, append_nil, append_nil]
    refine Sublist.trans ?_ h.sublist
    obtain hs | ⟨hlo, -⟩ := hw
    · exact Sublist.append (.refl _) (hs ▸ .refl _)
    · exact Sublist.append (.refl _) (hlo ▸ nil_sublist _)

theorem ordered_run (is : List ConnectionInput) :
    Ordered ((start timeout).history is) ((start timeout).run is) := by
  induction is using reverseRecOn with
  | nil =>
    exact ⟨⟨fun _ ↦ rfl, fun _ ↦ rfl, fun _ ↦ rfl⟩, by simp [run, start], .slnil, fun _ ↦ rfl,
      fun _ _ ↦ rfl⟩
  | append_singleton is i ih =>
    rw [history_concat, run_concat]
    exact ih.step i

theorem Takes.isReady (ht : connection.Takes i after es) :
    after.channel.isReady = true ↔ connection.channel.isReady = true ∨
      connection.channel.isClosed = false ∧ ∃ ps, i = .receive (.notification readyMethod ps) := by
  cases ht with
  | flushed hc => exact iff_of_true rfl (.inr ⟨hc, _, rfl⟩)
  | unheard hc => exact iff_of_true rfl (.inr ⟨hc, _, rfl⟩)
  | idle hi =>
    refine ⟨.inl, ?_⟩
    rintro (hr | ⟨hc, ps, rfl⟩)
    · exact hr
    · exact (hi.ready ps rfl).resolve_left (eq_false_iff.mp hc)
  | _ => exact (or_iff_left (by simp)).symm

theorem Takes.isDeaf (ht : connection.Takes i after es) :
    after.channel.isDeaf = true ↔ connection.channel.isDeaf = true ∨ i = .deafen := by
  cases ht with
  | deafened => exact iff_of_true rfl (.inr rfl)
  | idle hi => exact (or_iff_left hi.deafen).symm
  | _ => exact (or_iff_left (by simp)).symm

theorem isReady_run (h : ∀ ps, .receive (.notification readyMethod ps) ∉ is) :
    ((start timeout).run is).channel.isReady = false := by
  induction is using reverseRecOn with
  | nil => rfl
  | append_singleton is i ih =>
    have hb := ih fun ps hm ↦ h ps (mem_append_left _ hm)
    rw [run_concat, eq_false_iff, Ne, (takes_step _ i).isReady]
    rintro (hr | ⟨-, ps, rfl⟩)
    · exact eq_false_iff.mp hb hr
    · exact h ps (mem_append_right _ (mem_singleton_self _))

theorem isReady_or_isClosed_run {ps : Json} (h : .receive (.notification readyMethod ps) ∈ is) :
    ((start timeout).run is).channel.isReady = true ∨
      ((start timeout).run is).channel.isClosed = true := by
  induction is using reverseRecOn with
  | nil => cases h
  | append_singleton is i ih =>
    have ht := takes_step ((start timeout).run is) i
    rw [run_concat, ht.isReady, ht.isClosed]
    obtain ho | hl := mem_append.mp h
    · exact (ih ho).imp .inl .inl
    · cases hc : ((start timeout).run is).channel.isClosed with
      | true => exact .inr (.inl rfl)
      | false => exact .inl (.inr ⟨rfl, ps, (mem_singleton.mp hl).symm⟩)

theorem isDeaf_run (is : List ConnectionInput) :
    ((start timeout).run is).channel.isDeaf = true ↔ .deafen ∈ is := by
  induction is using reverseRecOn with
  | nil => simp [run, start]
  | append_singleton is i ih =>
    rw [run_concat, (takes_step _ i).isDeaf, ih]
    simp [eq_comm]

theorem step_ready_again (h : connection.channel.isReady = true ∨ connection.channel.isClosed = true)
    (ps : Json) :
    connection.step (.receive (.notification readyMethod ps)) = (connection, []) := by
  cases hc : connection.channel.isClosed with
  | true => rw [step, if_pos hc]
  | false =>
    have hr := h.resolve_right (eq_false_iff.mp hc)
    have ht : connection.channel.take (.notification readyMethod ps) =
        (connection.channel, []) := by
      simp [Channel.take, Channel.receive, hr]
    rw [step, if_neg (eq_false_iff.mp hc), ht, post_of_quiet (by simp)]

/-- Once the compiler is ready, what is sent is what is accepted. -/
theorem wire_history_of_ready (hd : connection.Drained)
    (hr : connection.channel.isReady = true) (is : List ConnectionInput) :
    wire (connection.history is) = accepted (connection.history is) := by
  induction is generalizing connection with
  | nil => rfl
  | cons i is ih =>
    have ht := takes_step connection i
    have hq : ∀ m ∈ connection.channel.queue, m.isIssued = true := by
      simp [hd.queue_of_ready hr]
    have hre := ih (hd.step ht) (ht.isReady.mpr (.inl hr))
    have hs : issuedIn (connection.step i).2 = (connection.accepted? i).toList := by
      cases ht.passes hq with
      | pass _ _ hw => exact hw
      | hold hu | release hu => exact absurd hr (eq_false_iff.mp hu)
    rw [history, wire_cons, accepted_cons, hre]
    exact congrArg (· ++ _) hs

/-- When the compiler gets ready and listens, it is sent what was held back. -/
theorem issuedIn_ready (h : Ordered moments connection) (hr : connection.channel.isReady = false)
    (hc : connection.channel.isClosed = false) (hd : connection.channel.isDeaf = false)
    (ps : Json) :
    issuedIn (connection.step (.receive (.notification readyMethod ps))).2 = kept moments := by
  have ht := takes_step connection (.receive (.notification readyMethod ps))
  have ha := ht.isReady.mpr (.inr ⟨hc, ps, rfl⟩)
  cases ht.passes h.issued with
  | hold _ hu => exact absurd ha (eq_false_iff.mp hu)
  | pass hb => exact absurd hb (eq_false_iff.mp hr)
  | release _ _ _ hw =>
    rw [← h.held hr hc]
    exact hw.resolve_right fun hl ↦ eq_false_iff.mp hd hl.2

/-- Messages reach the compiler in the order in which they are issued. -/
theorem sends_in_order (timeout : Option Nat) (inputs : List ConnectionInput) :
    let moments := (start timeout).history inputs
    let connection := (start timeout).run inputs
    -- nothing is sent before the compiler is ready
    ((∀ params, .receive (.notification readyMethod params) ∉ inputs) → wire moments = []) ∧
    -- what is sent was accepted, and keeps its order
    ((wire moments).Sublist (accepted moments) ∧ (accepted moments).Sublist (issued moments)) ∧
    -- only requests whose callers went on or gave up before the compiler was ready are missing
    (∀ before params after,
      inputs = before ++ .receive (.notification readyMethod params) :: after →
        (∀ earlier, .receive (.notification readyMethod earlier) ∉ before) →
          .disconnect ∉ before → .deafen ∉ before →
            wire moments = kept ((start timeout).history before) ++
              accepted (((start timeout).run before).history
                (.receive (.notification readyMethod params) :: after))) ∧
    -- a compiler that is ready again changes nothing
    ∀ params, .receive (.notification readyMethod params) ∈ inputs →
      ∀ again, connection.step (.receive (.notification readyMethod again)) = (connection, []) := by
  intro moments connection
  have hordered := ordered_run timeout inputs
  refine ⟨fun hunready ↦ hordered.quiet (isReady_run timeout hunready),
    ⟨(sublist_append_left _ _).trans hordered.sublist, accepted_sublist_issued moments⟩, ?_,
    fun params hready again ↦ step_ready_again (isReady_or_isClosed_run timeout hready) again⟩
  rintro before params after rfl hearlier hdisconnect hdeafen
  have hbefore := ordered_run timeout before
  have hready := isReady_run timeout hearlier
  have hclosed : ((start timeout).run before).channel.isClosed = false :=
    Bool.eq_false_iff.mpr (mt (isClosed_run timeout before).mp hdisconnect)
  have hdeaf : ((start timeout).run before).channel.isDeaf = false :=
    Bool.eq_false_iff.mpr (mt (isDeaf_run timeout before).mp hdeafen)
  have htakes := takes_step ((start timeout).run before)
    (.receive (.notification readyMethod params))
  have hlater := wire_history_of_ready (hbefore.drained.step htakes)
    (htakes.isReady.mpr (.inr ⟨hclosed, params, rfl⟩)) after
  have hflushed := issuedIn_ready hbefore hready hclosed hdeaf params
  have hnone : Moment.accepted? ⟨(start timeout).run before,
      .receive (.notification readyMethod params)⟩ = none := ite_self _
  rw [show moments = (start timeout).history before ++ _ from history_append _ _ _, wire_append,
    hbefore.quiet hready, nil_append, history, wire_cons, accepted_cons, hlater, hnone,
    Option.toList_none, nil_append]
  exact congrArg (· ++ _) hflushed

/-- Two requests and a notification before the compiler is ready, and a request after. The caller of
the first one gives up in time. -/
def givenUp : List ConnectionInput :=
  [.request 0 "a" .null false, .notify "n" .null, .request 0 "b" .null false, .drop 1,
    .receive (.notification readyMethod .null), .drop 2, .request 0 "c" .null false]

theorem sends_in_order_givenUp :
    wire ((start none).history givenUp) = kept ((start none).history (givenUp.take 4)) ++
          accepted (((start none).run (givenUp.take 4)).history (givenUp.drop 4)) ∧
      wire ((start none).history givenUp) =
        [.notification "n" .null, .request 2 "b" .null, .request 3 "c" .null] := by
  refine ⟨?_, by decide +kernel⟩
  exact (sends_in_order none givenUp).2.2.1 (givenUp.take 4) .null (givenUp.drop 5) rfl
    (by simp [givenUp]) (by decide) (by decide)

end Connection

end StoryScript
