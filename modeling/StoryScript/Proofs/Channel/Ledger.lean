import StoryScript.Proofs.Channel.Connection

/-!
The books that a connection keeps: which requests are pending, which are held back and which have a
result that waits (`Connection.ledger`). At a step numbers only move (`Ledger.Moves`), so that no
request is in two places (`Ledger.Sound.step`), and nothing is left over when the compiler is gone
(`Connection.Holds`). `Connection.Takes.mem_pending` says which requests are pending after a step.
-/

namespace StoryScript

open Channel List Message

/-- The requests that some events settle. -/
def ChannelEvent.settledIds (es : List ChannelEvent) : List UInt64 :=
  (es.filterMap reply?).map Prod.fst

/-- The numbers of the requests that a connection has to do with. -/
structure Ledger where
  /-- The requests that wait for a response. -/
  pending : List UInt64
  /-- The requests that are held back. -/
  queued : List UInt64
  /-- The requests whose results wait. -/
  waiting : List UInt64

namespace Ledger

/-- How numbers move at a step that settles some requests. A step that issues a request has the next
number. -/
inductive Moves (next? : Option UInt64) (ledger : Ledger) : Ledger → List UInt64 → Prop
  | stay (hnext : next? = none) : Moves next? ledger ledger []
  /-- The next request is settled at once. -/
  | spend {next : UInt64} {queued : List UInt64} (hnext : next? = some next)
      (hqueued : queued.Sublist ledger.queued) :
      Moves next? ledger { ledger with queued } [next]
  | issue {next : UInt64} {held : List UInt64} (hnext : next? = some next)
      (hheld : held = [] ∨ held = [next]) :
      Moves next? ledger
        { ledger with pending := ledger.pending ++ [next], queued := ledger.queued ++ held } []
  /-- What was held back is let go. -/
  | release (hnext : next? = none) : Moves next? ledger { ledger with queued := [] } []
  /-- Some pending requests get a result. -/
  | reply {ids kept queued : List UInt64} (hnext : next? = none) (hkept : kept.Sublist ledger.pending)
      (hapart : ∀ id ∈ ids, id ∈ ledger.pending ∧ id ∉ kept)
      (hids : ids.Sublist ledger.pending ∨ ids.Sublist ledger.queued)
      (hqueued : queued.Sublist ledger.queued) :
      Moves next? ledger { pending := kept, queued, waiting := ledger.waiting ++ ids } []
  /-- A caller goes on, or gives up. -/
  | leave {id : UInt64} {settled : List UInt64} (hnext : next? = none)
      (hsettled : settled = [] ∨ settled = [id] ∧ id ∈ ledger.pending ++ ledger.waiting) :
      Moves next? ledger
        { pending := ledger.pending.filter fun other ↦ other ≠ id
          queued := ledger.queued.filter fun other ↦ other ≠ id
          waiting := ledger.waiting.filter fun other ↦ other ≠ id }
        settled

/-- No request is in two places, and no number is above a bound. -/
structure Sound (count : Nat) (ledger : Ledger) (settled : List UInt64) : Prop where
  nodup : (ledger.pending ++ ledger.waiting ++ settled).Nodup
  nodup_queued : ledger.queued.Nodup
  bound : ∀ id ∈ ledger.pending ++ ledger.waiting ++ settled ++ ledger.queued, id.toNat ≤ count

variable {next? : Option UInt64} {ledger after : Ledger} {settled more : List UInt64} {count : Nat}

theorem Moves.mem (hm : Moves next? ledger after more) {id : UInt64}
    (h : id ∈ after.pending ++ after.waiting ++ more ++ after.queued) :
    id ∈ ledger.pending ++ ledger.waiting ++ ledger.queued ∨ next? = some id := by
  cases hm with
  | stay => grind
  | spend hn hq => grind [hq.subset]
  | issue hn hh => grind
  | release => grind
  | reply hn hk ha hi hq => grind [hq.subset, hk.subset]
  | leave hn hs => grind

/-- Numbers that move from one list to another stay apart from each other and from the rest. -/
theorem nodup_move {p k waiting ids : List UInt64}
    (h : (p ++ waiting ++ settled).Nodup) (hk : k.Sublist p) (hi : ids.Nodup)
    (ha : ∀ id ∈ ids, id ∈ p ∧ id ∉ k) :
    (k ++ (waiting ++ ids) ++ settled).Nodup := by
  simp only [nodup_append, mem_append] at h ⊢
  obtain ⟨⟨hp, hw, hc⟩, hs, hb⟩ := h
  have hsu := hk.subset
  refine ⟨⟨hk.nodup hp, ⟨hw, hi, ?_⟩, ?_⟩, hs, ?_⟩
  · grind
  · grind
  · grind

theorem Sound.step (h : Sound count ledger settled)
    (hne : ∀ id, next? = some id → id.toNat = count + 1)
    (hmo : Moves next? ledger after more) :
    Sound (count + next?.toList.length) after (settled ++ more) := by
  obtain ⟨hn, hq, hb⟩ := h
  have hf : ∀ id, next? = some id →
      id ∉ ledger.pending ++ ledger.waiting ++ settled ++ ledger.queued := by
    intro id hi hm
    have hl := hb id hm
    have heq := hne id hi
    omega
  have ha : ∀ id ∈ after.pending ++ after.waiting ++ (settled ++ more) ++ after.queued,
      id.toNat ≤ count + next?.toList.length := by
    intro id hi
    obtain ho | hm : id ∈ settled ∨ id ∈ after.pending ++ after.waiting ++ more ++ after.queued := by
      grind
    · exact Nat.le_add_right_of_le (hb id (by grind))
    · obtain hbe | hi := hmo.mem hm
      · exact Nat.le_add_right_of_le (hb id (by grind))
      · rw [hne id hi, hi]
        exact Nat.le_refl _
  cases hmo with
  | stay => exact ⟨by simpa using hn, hq, ha⟩
  | @spend n queued hi hr =>
    have hsp : (ledger.pending ++ ledger.waiting ++ settled ++ [n]).Nodup :=
      nodup_append.mpr ⟨hn, nodup_singleton n, by grind⟩
    exact ⟨by rwa [← append_assoc], hr.nodup hq, ha⟩
  | @issue n held hi hh =>
    have his : (ledger.pending ++ n :: (ledger.waiting ++ settled)).Nodup := by
      rw [nodup_middle, ← append_assoc]
      exact nodup_cons.mpr ⟨by grind, hn⟩
    have hh : (ledger.queued ++ held).Nodup := by
      obtain rfl | rfl := hh
      · rwa [append_nil]
      · exact nodup_append.mpr ⟨hq, nodup_singleton n, by grind⟩
    exact ⟨by simpa using his, hh, ha⟩
  | release => exact ⟨by simpa using hn, nodup_nil, ha⟩
  | reply _ hk hap hid hr =>
    have hmov := hid.elim (fun hid ↦ hid.nodup hn.of_append_left.of_append_left)
      fun hid ↦ hid.nodup hq
    refine ⟨?_, hr.nodup hq, ha⟩
    rw [append_nil]
    exact nodup_move hn hk hmov hap
  | leave _ hs => exact ⟨by grind, hq.filter _, ha⟩

end Ledger

namespace Connection

variable {id : UInt64}

open ChannelEvent (settledIds)

def ledger (c : Connection) : Ledger where
  pending := c.channel.pending.map PendingRequest.id
  queued := c.channel.queue.filterMap id?
  waiting := c.replies.map Prod.fst

/-- The number that an input takes. -/
def next? (c : Connection) (i : ConnectionInput) : Option UInt64 :=
  if i.isRequest then some c.channel.nextId else none

variable {c after : Connection} {i : ConnectionInput} {es : List ChannelEvent}

theorem settledIds_append (es more : List ChannelEvent) :
    settledIds (es ++ more) = settledIds es ++ settledIds more := by
  simp [settledIds]

theorem settledIds_of_quiet (h : ∀ e ∈ es, e.reply? = none) : settledIds es = [] := by
  rw [settledIds, filterMap_eq_nil_iff.mpr h, map_nil]

@[simp] theorem settledIds_sentNow (m : Message) : settledIds (c.sentNow m) = [] := by
  apply settledIds_of_quiet
  rw [sentNow]
  split <;> simp [ChannelEvent.reply?]

theorem settledIds_map_sent (ms : List Message) : settledIds (ms.map .sent) = [] := by
  apply settledIds_of_quiet
  simp [ChannelEvent.reply?]

theorem filterMap_id?_heldWith (c : Connection) (m : Message) :
    (c.heldWith m).filterMap id? = c.channel.queue.filterMap id? ++
        if c.channel.isReady then [] else m.id?.toList := by
  rw [heldWith]
  split <;> cases h : m.id? <;> simp [h]

theorem filterMap_id?_filter_ne (q : List Message) (id : UInt64) :
    (q.filter fun m ↦ m.id? ≠ some id).filterMap id? = (q.filterMap id?).filter fun o ↦ o ≠ id := by
  induction q with
  | nil => rfl
  | cons m q ih =>
    cases hi : m.id? with
    | none => simpa [hi] using ih
    | some o => by_cases ho : o = id <;> simpa [hi, ho] using ih

theorem ledger_leave (c : Connection) (id : UInt64) :
    (c.leave id).ledger =
      { pending := c.ledger.pending.filter fun o ↦ o ≠ id
        queued := c.ledger.queued.filter fun o ↦ o ≠ id
        waiting := c.ledger.waiting.filter fun o ↦ o ≠ id } := by
  simp only [ledger, leave, withdraw, filterMap_id?_filter_ne, filter_map]
  rfl

theorem mem_pending_iff : id ∈ c.ledger.pending ↔ c.channel.isPending id = true := by
  simp [ledger, isPending]

theorem Takes.moves (ht : c.Takes i after es) :
    Ledger.Moves (c.next? i) c.ledger after.ledger (settledIds es) := by
  cases ht with
  | refused => exact .spend rfl (.refl _)
  | lapsed =>
    rw [settledIds_append, settledIds_sentNow]
    exact .spend rfl (filter_sublist.filterMap id?)
  | @accepted _ m ps _ =>
    have hq := c.filterMap_id?_heldWith (.request c.channel.nextId m ps)
    rw [settledIds_sentNow]
    simp only [ledger, map_append, hq]
    refine .issue rfl ?_
    split
    · exact .inl rfl
    · exact .inr rfl
  | @notified m ps =>
    have hq := c.filterMap_id?_heldWith (.notification m ps)
    rw [settledIds_sentNow]
    simp only [ledger, hq, id?, Option.toList_none, ite_self, append_nil]
    exact .stay rfl
  | flushed =>
    rw [settledIds_map_sent]
    exact .release rfl
  | unheard =>
    simp only [ledger, map_append, map_map]
    have hids : (c.channel.queue.filterMap id?).filter c.channel.isPending =
        ((c.channel.queue.filterMap id?).filter c.channel.isPending).map
          (Prod.fst ∘ fun id ↦ (id, (.error .disconnected : Except Failure Json))) :=
      (map_id _).symm
    rw [← hids]
    refine .reply rfl (filter_sublist.map _) ?_ (.inr filter_sublist) (nil_sublist _)
    intro id hi
    obtain ⟨hq, hp⟩ := mem_filter.mp hi
    refine ⟨mem_pending_iff.mpr hp, ?_⟩
    rintro hk
    obtain ⟨r, hre, rfl⟩ := mem_map.mp hk
    exact of_decide_eq_true (mem_filter.mp hre).2 hq
  | @answered id _ _ _ hp =>
    have hi := mem_pending_iff.mpr hp
    simp only [ledger, map_append]
    refine .reply rfl (filter_sublist.map _) ?_ (.inl (singleton_sublist.mpr hi)) (.refl _)
    rintro o ho
    obtain rfl := mem_singleton.mp ho
    exact ⟨hi, by simp⟩
  | resumed hr =>
    rw [ledger_leave]
    exact .leave rfl (.inr ⟨rfl, mem_append_right _ (mem_map_of_mem hr)⟩)
  | expired hp =>
    rw [ledger_leave]
    exact .leave rfl (.inr ⟨rfl, mem_append_left _ (mem_map_of_mem hp)⟩)
  | dropped =>
    rw [ledger_leave]
    exact .leave rfl (.inl rfl)
  | disconnected =>
    simp only [ledger, map_append, map_map]
    exact .reply rfl (nil_sublist _) (fun id hi ↦ ⟨hi, by simp⟩) (.inl (.refl _)) (nil_sublist _)
  | deafened => exact .stay rfl
  | idle hid =>
    rw [settledIds_of_quiet hid.replies]
    exact .stay (if_neg (by simp [hid.request]))

/-- Nothing is pending or held back once the compiler is gone, and nothing is held back once it is
ready. -/
structure Drained (c : Connection) : Prop where
  pending_of_closed : c.channel.isClosed = true → c.channel.pending = []
  queue_of_closed : c.channel.isClosed = true → c.channel.queue = []
  queue_of_ready : c.channel.isReady = true → c.channel.queue = []

theorem Drained.leave (h : c.Drained) (id : UInt64) : (c.leave id).Drained where
  pending_of_closed hc := by
    rw [Connection.leave, withdraw, h.pending_of_closed hc, filter_nil]
  queue_of_closed hc := by
    rw [Connection.leave, withdraw, h.queue_of_closed hc, filter_nil]
  queue_of_ready hr := by
    rw [Connection.leave, withdraw, h.queue_of_ready hr, filter_nil]

theorem Drained.heldWith (h : c.Drained) (hr : c.channel.isReady = true)
    (m : Message) : c.heldWith m = [] := by
  rw [Connection.heldWith, if_pos hr, h.queue_of_ready hr]

theorem not_closed_of_not_refuses {ch : Channel} (h : ch.refuses = false) : ch.isClosed = false :=
  (Bool.or_eq_false_iff.mp h).1

theorem Drained.step (h : c.Drained) (ht : c.Takes i after es) : after.Drained := by
  cases ht with
  | refused => exact ⟨h.pending_of_closed, h.queue_of_closed, h.queue_of_ready⟩
  | lapsed hre =>
    have hc := not_closed_of_not_refuses hre
    refine ⟨h.pending_of_closed, by simp [hc], fun hr ↦ ?_⟩
    exact filter_eq_nil_iff.mpr (by simp [h.queue_of_ready hr])
  | accepted hre =>
    have hc := not_closed_of_not_refuses hre
    exact ⟨by simp [hc], by simp [hc], fun hr ↦ h.heldWith hr _⟩
  | notified hre =>
    have hc := not_closed_of_not_refuses hre
    exact ⟨by simp [hc], by simp [hc], fun hr ↦ h.heldWith hr _⟩
  | flushed hc => exact ⟨by simp [hc], fun _ ↦ rfl, fun _ ↦ rfl⟩
  | unheard hc => exact ⟨by simp [hc], fun _ ↦ rfl, fun _ ↦ rfl⟩
  | answered hc => exact ⟨by simp [hc], h.queue_of_closed, h.queue_of_ready⟩
  | resumed => exact h.leave _
  | expired => exact h.leave _
  | dropped => exact h.leave _
  | disconnected => exact ⟨fun _ ↦ rfl, fun _ ↦ rfl, fun _ ↦ rfl⟩
  | deafened => exact ⟨h.pending_of_closed, h.queue_of_closed, h.queue_of_ready⟩
  | idle => exact h

/-- Besides, each pending request is held back until the compiler is ready. -/
structure Holds (c : Connection) : Prop extends Drained c where
  held : c.channel.isReady = false → c.ledger.pending ⊆ c.ledger.queued

theorem held_leave (h : c.ledger.pending ⊆ c.ledger.queued) :
    (c.leave id).ledger.pending ⊆ (c.leave id).ledger.queued := by
  rw [ledger_leave]
  exact filter_subset _ h

theorem queued_subset_heldWith (c : Connection) (m : Message) :
    c.ledger.queued ⊆ (c.heldWith m).filterMap id? := by
  rw [filterMap_id?_heldWith]
  exact subset_append_left _ _

theorem Holds.step (h : c.Holds) (ht : c.Takes i after es)
    (hf : i.isRequest = true → c.channel.nextId ∉ c.ledger.pending) :
    after.Holds := by
  refine ⟨h.toDrained.step ht, fun hr ↦ ?_⟩
  cases ht with
  | refused => exact h.held hr
  | lapsed hre =>
    intro id hi
    have hn : id ≠ c.channel.nextId := fun heq ↦ hf rfl (heq ▸ hi)
    simp only [ledger, filterMap_id?_filter_ne]
    exact mem_filter.mpr ⟨h.held hr hi, decide_eq_true hn⟩
  | @accepted _ m ps _ hre =>
    have hu : c.channel.isReady = false := hr
    intro id hi
    simp only [ledger, map_append] at hi
    obtain ho | hne := mem_append.mp hi
    · exact c.queued_subset_heldWith _ (h.held hr ho)
    · obtain rfl := mem_singleton.mp hne
      simp only [ledger, filterMap_id?_heldWith, hu, Bool.false_eq_true, if_false]
      exact mem_append_right _ (mem_singleton_self _)
  | notified hre =>
    exact List.Subset.trans (h.held hr) (c.queued_subset_heldWith _)
  | flushed | unheard => cases hr
  | answered =>
    exact List.Subset.trans (filter_sublist.map _).subset (h.held hr)
  | resumed | expired | dropped => exact held_leave (h.held hr)
  | disconnected => exact nil_subset _
  | deafened => exact h.held hr
  | idle => exact h.held hr

/-- Whether an input makes a request pending. -/
def Accepts (c : Connection) (r : PendingRequest) : ConnectionInput → Prop
  | .request now m _ l =>
    c.channel.refuses = false ∧ r = c.channel.nextPending now m l ∧ isOverdue now r = false
  | _ => False

theorem not_accepts {request : PendingRequest} (h : i.isRequest = false) :
    ¬ c.Accepts request i := by
  cases i with
  | request => cases h
  | _ => exact id

theorem mem_pending_leave {r : PendingRequest} :
    r ∈ (c.leave id).channel.pending ↔ r ∈ c.channel.pending ∧ ¬ id = r.id := by
  rw [Connection.leave, withdraw, mem_filter, decide_eq_true_iff, ne_comm]

/-- After a step, the pending requests are those that it accepts and those whose wait it does not
end. -/
theorem Takes.mem_pending (ht : c.Takes i after es) (hh : c.Holds)
    {count : Nat} {settled : List UInt64} (hs : c.ledger.Sound count settled)
    (r : PendingRequest) :
    r ∈ after.channel.pending ↔ c.Accepts r i ∨ r ∈ c.channel.pending ∧ ¬ c.Ends r i := by
  cases ht with
  | refused hre =>
    rw [or_iff_right fun ha ↦ Bool.false_ne_true (ha.1.symm.trans hre)]
    exact (and_iff_left not_false).symm
  | @lapsed now m _ l hre ho =>
    have hn : ¬ (r = c.channel.nextPending now m l ∧ isOverdue now r = false) := by
      rintro ⟨rfl, hin⟩
      exact Bool.false_ne_true (hin.symm.trans ho)
    rw [or_iff_right fun ha ↦ hn ha.2]
    exact (and_iff_left not_false).symm
  | @accepted now m ps l hre ho =>
    have ha : c.Accepts r (.request now m ps l) ↔ r = c.channel.nextPending now m l :=
      ⟨fun h ↦ h.2.1, fun heq ↦ ⟨hre, heq, heq ▸ ho⟩⟩
    rw [ha, mem_append, mem_singleton, or_comm]
    exact or_congr_right (and_iff_left not_false).symm
  | notified =>
    rw [or_iff_right (not_accepts rfl)]
    exact (and_iff_left not_false).symm
  | flushed _ _ hd =>
    rw [or_iff_right (not_accepts rfl)]
    exact (and_iff_left fun he ↦ Bool.false_ne_true (hd.symm.trans he.2.2)).symm
  | @unheard ps _ hrea hd =>
    have he : c.Ends r (.receive (.notification readyMethod ps)) := ⟨rfl, hrea, hd⟩
    rw [or_iff_right (not_accepts rfl), mem_filter, decide_eq_true_iff]
    refine and_congr_right fun hr ↦ iff_of_false (not_not_intro ?_) (not_not_intro he)
    exact hh.held hrea (mem_map_of_mem hr)
  | @answered id =>
    rw [or_iff_right (not_accepts rfl), mem_filter, decide_eq_true_iff, ne_comm]
    rfl
  | @resumed id _ hrep =>
    rw [or_iff_right (not_accepts rfl), mem_pending_leave]
    refine and_congr_right fun hr ↦ iff_of_true ?_ not_false
    -- a request with a result that waits is no longer pending
    rintro rfl
    have hap := (nodup_append.mp hs.nodup.of_append_left).2.2
    exact hap _ (mem_map_of_mem hr) _ (mem_map_of_mem hrep) rfl
  | @expired now overdue hp ho =>
    rw [or_iff_right (not_accepts rfl), mem_pending_leave]
    refine and_congr_right fun hr ↦ not_congr ⟨fun hi ↦ ⟨hi, ?_⟩, And.left⟩
    have heq := inj_on_of_nodup_map hs.nodup.of_append_left.of_append_left hp hr hi
    exact heq ▸ ho
  | dropped =>
    rw [or_iff_right (not_accepts rfl), mem_pending_leave]
    rfl
  | disconnected =>
    rw [or_iff_right (not_accepts rfl)]
    exact iff_of_false not_mem_nil fun h ↦ h.2 trivial
  | deafened =>
    rw [or_iff_right (not_accepts rfl)]
    exact (and_iff_left not_false).symm
  | idle hid =>
    rw [or_iff_right (not_accepts hid.request)]
    refine ⟨fun hp ↦ ⟨hp, hid.ends r hp ?_⟩, And.left⟩
    cases hc : c.channel.isClosed with
    | true =>
      rw [hh.pending_of_closed hc] at hp
      cases hp
    | false => rfl

theorem Takes.nextId (ht : c.Takes i after es) :
    after.channel.nextId = if i.isRequest then c.channel.nextId + 1 else c.channel.nextId := by
  cases ht with
  | idle hi => exact (if_neg (Bool.eq_false_iff.mp hi.request)).symm
  | _ => rfl

/-- The result that an input has for a pending request. -/
def answer? (c : Connection) : ConnectionInput → Option (UInt64 × Except Failure Json)
  | .receive (.response id r e) =>
    if c.channel.isPending id then some (id, resultOf r e) else none
  | _ => none

theorem answer?_eq_some {a : UInt64 × Except Failure Json} (h : c.answer? i = some a) :
    ∃ r e, i = .receive (.response a.1 r e) ∧
      a.2 = resultOf r e ∧ c.channel.isPending a.1 = true := by
  unfold answer? at h
  split at h
  · split at h
    · cases h
      exact ⟨_, _, rfl, rfl, by assumption⟩
    · cases h
  · cases h

/-- Whether a result was made by the compiler. -/
def isAnswer : Except Failure Json → Bool
  | .ok _ | .error (.remote _ _) => true
  | _ => false

section

variable (ht : c.Takes i after es) {rp : UInt64 × Except Failure Json}

include ht

theorem Takes.mem_replies (h : rp ∈ after.replies) :
    rp ∈ c.replies ∨ c.answer? i = some rp ∨ rp.2 = .error .disconnected := by
  cases ht with
  | unheard =>
    obtain ho | hn := mem_append.mp h
    · exact .inl ho
    · obtain ⟨id, -, rfl⟩ := mem_map.mp hn
      exact .inr (.inr rfl)
  | answered _ hp =>
    obtain ho | hn := mem_append.mp h
    · exact .inl ho
    · obtain rfl := mem_singleton.mp hn
      exact .inr (.inl (if_pos hp))
  | disconnected =>
    obtain ho | hn := mem_append.mp h
    · exact .inl ho
    · obtain ⟨r, -, rfl⟩ := mem_map.mp hn
      exact .inr (.inr rfl)
  | resumed | expired | dropped => exact .inl (mem_of_mem_filter h)
  | _ => exact .inl h

/-- A response for a pending request is a result that waits. -/
theorem Takes.mem_of_answer (hh : c.Holds) {a : UInt64 × Except Failure Json}
    (h : c.answer? i = some a) : a ∈ after.replies := by
  obtain ⟨res, e, rfl, hre, hp⟩ := answer?_eq_some h
  obtain ⟨r, hr, hid⟩ := mem_map.mp (mem_pending_iff.mpr hp)
  generalize hi : ConnectionInput.receive (.response a.1 res e) = i at ht
  cases ht with
  | answered =>
    cases hi
    exact mem_append_right _ (mem_singleton.mpr (Prod.ext rfl hre))
  | idle hidl =>
    subst hi
    cases hc : c.channel.isClosed with
    | true =>
      rw [hh.pending_of_closed hc] at hr
      cases hr
    | false => exact absurd hid.symm (hidl.ends r hr hc)
  | _ => cases hi

/-- A result stays until its caller takes it or gives up. -/
theorem Takes.keeps_reply {count : Nat} {settled : List UInt64} (hs : c.ledger.Sound count settled)
    (h : rp ∈ c.replies) (hr : i ≠ .resume rp.1) (hd : i ≠ .drop rp.1) : rp ∈ after.replies := by
  cases ht with
  | unheard | answered | disconnected => exact mem_append_left _ h
  | @resumed id =>
    refine mem_filter.mpr ⟨h, decide_eq_true ?_⟩
    rintro rfl
    exact hr rfl
  | @expired _ r hp =>
    refine mem_filter.mpr ⟨h, decide_eq_true fun hi ↦ ?_⟩
    have ha := (nodup_append.mp hs.nodup.of_append_left).2.2
    exact ha _ (mem_map_of_mem hp) _ (mem_map_of_mem h) hi.symm
  | @dropped id =>
    refine mem_filter.mpr ⟨h, decide_eq_true ?_⟩
    rintro rfl
    exact hd rfl
  | _ => exact h

end

theorem not_settled_sentNow (m : Message) (id : UInt64) (r : Except Failure Json) :
    .settled id r ∉ c.sentNow m := by
  rw [sentNow]
  split <;> simp

variable {r : Except Failure Json}

/-- What the compiler made reaches a caller from among the results that wait. -/
theorem Takes.mem_of_settled (ht : c.Takes i after es) (h : .settled id r ∈ es)
    (ha : isAnswer r = true) : (id, r) ∈ c.replies := by
  cases ht with
  | resumed hr =>
    cases mem_singleton.mp h
    exact hr
  | refused =>
    cases mem_singleton.mp h
    cases ha
  | lapsed =>
    obtain hs | hl := mem_append.mp h
    · exact absurd hs (not_settled_sentNow _ _ _)
    · cases mem_singleton.mp hl
      cases ha
  | expired =>
    cases mem_singleton.mp h
    cases ha
  | accepted | notified => exact absurd h (not_settled_sentNow _ _ _)
  | flushed => simp at h
  | idle hi => cases hi.replies _ h
  | _ => cases h

theorem Takes.eq_of_progressed (ht : c.Takes i after es) {v : Json} (h : .progressed id v ∈ es) :
    ∃ mt, i = .receive (.progress id mt v) := by
  have hs : ∀ m, .progressed id v ∉ c.sentNow m := by
    intro m
    rw [sentNow]
    split <;> simp
  cases ht with
  | idle hi => exact hi.progress id v h
  | lapsed =>
    obtain h | h := mem_append.mp h
    · exact absurd h (hs _)
    · simp at h
  | accepted | notified => exact absurd h (hs _)
  | _ => simp at h

theorem step_progress (h : c.Holds) (id : UInt64) (m : String) (v : Json) :
    c.step (.receive (.progress id m v)) =
      (c, if c.channel.pending.any fun r ↦ r.id = id && r.listens then
          [.progressed id v]
        else []) := by
  cases hc : c.channel.isClosed with
  | true =>
    rw [step, if_pos hc, h.pending_of_closed hc]
    rfl
  | false =>
    rw [step, if_neg (Bool.eq_false_iff.mp hc)]
    refine post_of_quiet fun e he ↦ ?_
    split at he
    · rw [mem_singleton.mp he]
      rfl
    · cases he

theorem Takes.isClosed (ht : c.Takes i after es) :
    after.channel.isClosed = true ↔ c.channel.isClosed = true ∨ i = .disconnect := by
  cases ht with
  | disconnected => exact iff_of_true rfl (.inr rfl)
  | idle hi => exact (or_iff_left hi.disconnect).symm
  | _ => exact (or_iff_left (by simp)).symm

theorem isClosed_run (t : Option Nat) (is : List ConnectionInput) :
    ((start t).run is).channel.isClosed = true ↔ .disconnect ∈ is := by
  induction is using reverseRecOn with
  | nil => simp [run, start]
  | append_singleton is i ih =>
    rw [run_concat, (takes_step _ i).isClosed, ih]
    simp [eq_comm]

theorem resume_of_mem_replies (hn : c.ledger.waiting.Nodup) (h : (id, r) ∈ c.replies) :
    (c.step (.resume id)).2 = [.settled id r] := by
  cases hf : c.replies.find? fun reply ↦ reply.1 = id with
  | none => exact absurd (decide_eq_true rfl) (find?_eq_none.mp hf _ h)
  | some reply =>
    have hi : reply.1 = id := by simpa using find?_some hf
    have heq := inj_on_of_nodup_map hn (mem_of_find?_eq_some hf) h hi
    simp only [step, hf, heq]

end Connection

end StoryScript
