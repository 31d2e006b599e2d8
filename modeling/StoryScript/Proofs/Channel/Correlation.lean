import StoryScript.Proofs.Channel.Ledger

/-!
Requests and their responses, in every run of a connection. No request is settled twice, and what the
compiler made reaches the caller of the request that the first response was for. The requests that
are pending are those that were accepted and whose wait has not ended. When the compiler is gone,
nothing is pending or held back any more, and all that is issued fails. `Connection.Traced` is what
a run keeps up, and `Connection.correlates` puts the parts together.
-/

namespace StoryScript

open ConnectionInput List

namespace Connection

variable {a : UInt64 × Except Failure Json}

open ChannelEvent (settledIds)

/-- How many requests were issued. -/
def requests (moments : List Moment) : Nat :=
  moments.countP fun m ↦ m.input.isRequest

/-- The numbers that were given to requests. -/
def numbers (moments : List Moment) : List UInt64 :=
  moments.filterMap fun m ↦ m.before.next? m.input

/-- The responses that came for pending requests. -/
def answers (moments : List Moment) : List (UInt64 × Except Failure Json) :=
  moments.filterMap fun m ↦ m.before.answer? m.input

/-- The first response that came for a request while it was pending. -/
def firstAnswer? (moments : List Moment) (id : UInt64) : Option (UInt64 × Except Failure Json) :=
  (answers moments).find? fun a ↦ a.1 = id

/-- Whether a request was accepted, and nothing has ended its wait. -/
def Awaited (moments : List Moment) (r : PendingRequest) : Prop :=
  ∃ er m l, moments = er ++ m :: l ∧ m.before.Accepts r m.input ∧ ∀ o ∈ l, ¬ o.before.Ends r o.input

/-- What holds of a connection with some history. -/
structure Traced (moments : List Moment) (connection : Connection) : Prop where
  nextId : connection.channel.nextId = UInt64.ofNat (requests moments + 1)
  numbers : (numbers moments).Nodup ∧ ∀ id ∈ numbers moments, id.toNat ≤ requests moments
  sound : connection.ledger.Sound (requests moments) (settledIds (moments.flatMap Moment.events))
  holds : connection.Holds
  answered : ∀ a ∈ answers moments, a.1.toNat ≤ requests moments ∧ a.1 ∉ connection.ledger.pending
  replied : ∀ reply ∈ connection.replies, isAnswer reply.2 = true →
    firstAnswer? moments reply.1 = some reply
  pending : ∀ request, request ∈ connection.channel.pending ↔ Awaited moments request

variable {connection : Connection} {moments : List Moment} {input : ConnectionInput}

theorem awaited_concat {m : Moment} {r : PendingRequest} :
    Awaited (moments ++ [m]) r ↔ m.before.Accepts r m.input ∨
      Awaited moments r ∧ ¬ m.before.Ends r m.input := by
  constructor
  · rintro ⟨l, ac, lt, heq, ha, he⟩
    induction lt using reverseRecOn with
    | nil =>
      obtain ⟨rfl, rfl⟩ : moments = l ∧ m = ac := by simpa using heq
      exact .inl ha
    | append_singleton lt last _ =>
      rw [← cons_append, ← append_assoc] at heq
      obtain ⟨rfl, hl⟩ := append_inj' heq rfl
      cases hl
      exact .inr ⟨⟨l, ac, lt, rfl, ha, fun o ho ↦ he o (mem_append_left _ ho)⟩,
        he m (mem_append_right _ (mem_singleton_self _))⟩
  · rintro (ha | ⟨⟨l, ac, lt, rfl, ha, he⟩, hl⟩)
    · exact ⟨moments, m, [], rfl, ha, by simp⟩
    · refine ⟨l, ac, lt ++ [m], by simp, ha, ?_⟩
      intro o ho
      obtain ho | ho := mem_append.mp ho
      · exact he o ho
      · exact mem_singleton.mp ho ▸ hl

section

variable (moments : List Moment) (m : Moment)

theorem requests_concat :
    requests (moments ++ [m]) = requests moments + (m.before.next? m.input).toList.length := by
  cases h : m.input.isRequest <;> simp [requests, next?, h]

theorem numbers_concat :
    numbers (moments ++ [m]) = numbers moments ++ (m.before.next? m.input).toList := by
  rw [numbers, filterMap_append]
  cases h : m.before.next? m.input <;> simp [numbers, h]

theorem answers_concat :
    answers (moments ++ [m]) = answers moments ++ (m.before.answer? m.input).toList := by
  rw [answers, filterMap_append]
  cases h : m.before.answer? m.input <;> simp [answers, h]

end

theorem firstAnswer?_concat {id : UInt64} (h : firstAnswer? moments id = some a)
    (m : Moment) : firstAnswer? (moments ++ [m]) id = some a := by
  rw [firstAnswer?] at h
  rw [firstAnswer?, answers_concat, find?_append, h]
  rfl

/-- The next request has a number of its own, as long as numbers do not start over. -/
theorem Traced.toNat_next? (h : Traced moments connection)
    (hc : requests (moments ++ [⟨connection, input⟩]) < 2 ^ 64) {id : UInt64}
    (hi : connection.next? input = some id) : id.toNat = requests moments + 1 := by
  rw [requests_concat, hi] at hc
  have hn : id = connection.channel.nextId := by
    rw [next?] at hi
    split at hi
    · exact (Option.some.inj hi).symm
    · cases hi
  rw [hn, h.nextId]
  exact UInt64.toNat_ofNat_of_lt hc

theorem next?_of_accepts {request : PendingRequest} (h : connection.Accepts request input) :
    connection.next? input = some request.id := by
  cases input with
  | request => exact congrArg (some ∘ PendingRequest.id) h.2.1.symm
  | _ => cases h

/-- A request that has had a response is not pending. -/
theorem Traced.answered_step (h : Traced moments connection)
    (hc : requests (moments ++ [⟨connection, input⟩]) < 2 ^ 64)
    (han : a ∈ answers (moments ++ [⟨connection, input⟩])) :
    a.1.toNat ≤ requests (moments ++ [⟨connection, input⟩]) ∧
      a.1 ∉ (connection.step input).1.ledger.pending := by
  have hp := (takes_step connection input).mem_pending h.holds h.sound
  rw [answers_concat, mem_append, Option.mem_toList] at han
  rw [requests_concat]
  obtain ho | hn := han
  · obtain ⟨hbo, hap⟩ := h.answered a ho
    refine ⟨Nat.le_add_right_of_le hbo, fun hm ↦ ?_⟩
    obtain ⟨r, hr, hi⟩ := mem_map.mp hm
    obtain ha | ⟨hb, -⟩ := (hp r).mp hr
    · have hnu := h.toNat_next? hc (next?_of_accepts ha)
      rw [hi] at hnu
      omega
    · exact hap (hi ▸ mem_map_of_mem hb)
  · obtain ⟨_, _, rfl, -, hb⟩ := answer?_eq_some hn
    have hbo := h.sound.bound a.1 (by simp [mem_pending_iff.mpr hb])
    refine ⟨Nat.le_add_right_of_le hbo, fun hm ↦ ?_⟩
    obtain ⟨r, hr, hi⟩ := mem_map.mp hm
    obtain ha | ⟨-, he⟩ := (hp r).mp hr
    · exact not_accepts rfl ha
    · exact he hi.symm

theorem Traced.replied_step (h : Traced moments connection)
    {r : UInt64 × Except Failure Json} (hr : r ∈ (connection.step input).1.replies)
    (ha : isAnswer r.2 = true) :
    firstAnswer? (moments ++ [⟨connection, input⟩]) r.1 = some r := by
  obtain ho | hn | hf := (takes_step connection input).mem_replies hr
  · exact firstAnswer?_concat (h.replied r ho ha) _
  · obtain ⟨_, _, -, -, hp⟩ := answer?_eq_some hn
    have hno : (answers moments).find? (fun a ↦ a.1 = r.1) = none := by
      refine find?_eq_none.mpr fun a hm hi ↦ ?_
      rw [← of_decide_eq_true hi] at hp
      exact (h.answered a hm).2 (mem_pending_iff.mpr hp)
    rw [firstAnswer?, answers_concat, find?_append, hno, hn]
    simp
  · rw [hf] at ha
    cases ha

theorem Traced.step (h : Traced moments connection)
    (hc : requests (moments ++ [⟨connection, input⟩]) < 2 ^ 64) :
    Traced (moments ++ [⟨connection, input⟩]) (connection.step input).1 where
  nextId := by
    rw [(takes_step connection input).nextId, requests_concat, next?, h.nextId]
    split
    · rw [Option.toList_some, length_singleton, UInt64.ofNat_add (requests moments + 1)]
      rfl
    · rfl
  numbers := by
    obtain ⟨hn, hb⟩ := h.numbers
    rw [numbers_concat, requests_concat]
    cases hne : connection.next? input with
    | none => simpa using ⟨hn, hb⟩
    | some id =>
      have hnu := h.toNat_next? hc hne
      have hf : id ∉ Connection.numbers moments := fun hm ↦ by
        have hl := hb id hm
        omega
      refine ⟨nodup_append.mpr ⟨hn, nodup_singleton id, ?_⟩, ?_⟩
      · rintro o ho _ hi rfl
        exact hf (mem_singleton.mp hi ▸ ho)
      · intro o ho
        rw [Option.toList_some, length_singleton]
        obtain ho | ho := mem_append.mp ho
        · exact Nat.le_add_right_of_le (hb o ho)
        · rw [mem_singleton.mp ho]
          exact Nat.le_of_eq hnu
  sound := by
    rw [requests_concat, flatMap_append, settledIds_append]
    have hs : settledIds ([(⟨connection, input⟩ : Moment)].flatMap Moment.events) =
        settledIds (connection.step input).2 := by
      rw [flatMap_singleton]
      rfl
    rw [hs]
    exact h.sound.step (fun id ↦ h.toNat_next? hc) (takes_step connection input).moves
  holds := by
    refine h.holds.step (takes_step connection input) fun hre hm ↦ ?_
    have hnu := h.toNat_next? hc (if_pos hre)
    have hb := h.sound.bound _ (mem_append_left _ (mem_append_left _ (mem_append_left _ hm)))
    omega
  answered _ ha := h.answered_step hc ha
  replied _ hr ha := h.replied_step hr ha
  pending request := by
    rw [awaited_concat, ← h.pending]
    exact (takes_step connection input).mem_pending h.holds h.sound request

theorem requests_history (connection : Connection) (is : List ConnectionInput) :
    requests (connection.history is) = is.countP isRequest := by
  induction is generalizing connection with
  | nil => rfl
  | cons input is ih =>
    have hr := ih (connection.step input).1
    rw [requests] at hr
    rw [history, requests, countP_cons, countP_cons, hr]

theorem traced_run (t : Option Nat) (is : List ConnectionInput)
    (hc : is.countP isRequest < 2 ^ 64) :
    Traced ((start t).history is) ((start t).run is) := by
  induction is using reverseRecOn with
  | nil =>
    exact ⟨rfl, by simp [numbers, history],
      ⟨nodup_nil, nodup_nil, by simp [start, ledger, run, history, settledIds, requests]⟩,
      ⟨⟨by simp [start, run], by simp [start, run], by simp [start, run]⟩, by simp [start, run, ledger]⟩,
      by simp [answers, history], by simp [run, start], by simp [run, start, Awaited, history]⟩
  | append_singleton is input ih =>
    have hb : is.countP isRequest < 2 ^ 64 := by
      rw [countP_append] at hc
      omega
    rw [history_concat, run_concat]
    refine (ih hb).step ?_
    rw [← history_concat, requests_history]
    exact hc

/-- A response for a pending request waits for the caller, whatever else happens. -/
theorem mem_replies_run (t : Option Nat) {l r : List ConnectionInput}
    (hc : (l ++ input :: r).countP isRequest < 2 ^ 64)
    (han : ((start t).run l).answer? input = some a)
    (ha : ∀ lt ∈ r, lt ≠ .resume a.1 ∧ lt ≠ .drop a.1) :
    a ∈ ((start t).run (l ++ input :: r)).replies := by
  induction r using reverseRecOn with
  | nil =>
    have hb : l.countP isRequest < 2 ^ 64 := by
      rw [countP_append] at hc
      omega
    rw [run_concat]
    exact (takes_step _ input).mem_of_answer (traced_run t l hb).holds han
  | append_singleton r last ih =>
    rw [← cons_append, ← append_assoc] at hc ⊢
    have hb : (l ++ input :: r).countP isRequest < 2 ^ 64 := by
      rw [countP_append] at hc
      omega
    have hl := ha last (mem_append_right _ (mem_singleton_self last))
    have hm := ih hb fun lt hla ↦ ha lt (mem_append_left _ hla)
    rw [run_concat]
    exact (takes_step _ last).keeps_reply (traced_run t _ hb).sound hm hl.1 hl.2

/-- Requests and responses belong together, in every run of a connection. -/
theorem correlates (timeout : Option Nat) (inputs : List ConnectionInput)
    (hcount : inputs.countP isRequest < 2 ^ 64) :
    let moments := (start timeout).history inputs
    let connection := (start timeout).run inputs
    -- no two requests have one number, and none is settled twice
    ((numbers moments).Nodup ∧ (settledIds (moments.flatMap Moment.events)).Nodup) ∧
    -- what the compiler made is from the first response that came for a request while it was pending
    (∀ input id result, .settled id result ∈ (connection.step input).2 → isAnswer result = true →
      firstAnswer? moments id = some (id, result)) ∧
    -- and such a response reaches the caller, unless the caller gives up
    (∀ before id result error after, inputs = before ++ .receive (.response id result error) :: after →
      ((start timeout).run before).channel.isPending id = true →
        (∀ later ∈ after, later ≠ .resume id ∧ later ≠ .drop id) →
          (connection.step (.resume id)).2 = [.settled id (Channel.resultOf result error)]) ∧
    -- news of a request reaches its own caller while it is pending, and changes nothing
    ((∀ id method value, connection.step (.receive (.progress id method value)) =
      (connection, if connection.channel.pending.any fun request ↦ request.id = id && request.listens
        then [.progressed id value] else [])) ∧
      ∀ input id value, .progressed id value ∈ (connection.step input).2 →
        ∃ method, input = .receive (.progress id method value)) ∧
    -- the pending requests are those that were accepted and whose wait has not ended
    ((connection.channel.pending.map PendingRequest.id).Nodup ∧
      ∀ request, request ∈ connection.channel.pending ↔ Awaited moments request) ∧
    -- nothing is left when the compiler is gone, and nothing is accepted
    (.disconnect ∈ inputs → connection.channel.pending = [] ∧ connection.channel.queue = [] ∧
      (∀ now method params listens, (connection.step (.request now method params listens)).2 =
        [.settled connection.channel.nextId (.error .disconnected)]) ∧
      ∀ method params, connection.channel.notify method params =
        (connection.channel, .error .disconnected)) := by
  intro moments connection
  have htraced := traced_run timeout inputs hcount
  refine ⟨⟨htraced.numbers.1, htraced.sound.nodup.of_append_right⟩, ?_, ?_, ⟨?_, ?_⟩, ⟨?_, ?_⟩, ?_⟩
  · intro input id result hsettled hanswer
    exact htraced.replied _ ((takes_step connection input).mem_of_settled hsettled hanswer) hanswer
  · rintro before id result error after rfl hpending hafter
    have hanswer : ((start timeout).run before).answer? (.receive (.response id result error)) =
        some (id, Channel.resultOf result error) := if_pos hpending
    exact resume_of_mem_replies htraced.sound.nodup.of_append_left.of_append_right
      (mem_replies_run timeout hcount hanswer hafter)
  · exact step_progress htraced.holds
  · intro input id value hprogressed
    exact (takes_step connection input).eq_of_progressed hprogressed
  · exact htraced.sound.nodup.of_append_left.of_append_left
  · exact htraced.pending
  · intro hdisconnect
    have hclosed := (isClosed_run timeout inputs).mpr hdisconnect
    have hrefuses : connection.channel.refuses = true := Bool.or_eq_true_iff.mpr (.inl hclosed)
    refine ⟨htraced.holds.pending_of_closed hclosed, htraced.holds.queue_of_closed hclosed, ?_, ?_⟩
    · intro now method params listens
      have hissue := connection.channel.issue_of_refuses now method params listens hrefuses
      simp only [step, hissue]
    · intro method params
      exact connection.channel.notify_of_refuses method params hrefuses

/-- Two requests: the first one's time is up before its response comes, and the second one has two
responses, of which its caller has taken none. -/
def lateAndTwice : List ConnectionInput :=
  [.request 0 "a" .null true, .request 3 "b" .null false,
    .receive (.notification Message.readyMethod .null), .receive (.progress 1 "a/progress" .null),
    .receive (.response 2 (some (.string "first")) none),
    .receive (.response 2 (some (.string "second")) none), .expire 5 1,
    .receive (.response 1 none none)]

theorem correlates_lateAndTwice :
    lateAndTwice.countP isRequest < 2 ^ 64 ∧
      let moments := (start (some 5)).history lateAndTwice
      let connection := (start (some 5)).run lateAndTwice
      settledIds (moments.flatMap Moment.events) = [1] ∧
        (connection.step (.resume 2)).2 = [.settled 2 (.ok (.string "first"))] ∧
          firstAnswer? moments 2 = some (2, .ok (.string "first")) ∧
            ¬ Awaited moments ⟨1, "a", true, some 5⟩ := by
  obtain ⟨-, hfirst, hreaches, -, ⟨-, hpending⟩, -⟩ := correlates (some 5) lateAndTwice (by decide)
  have hsettled := hreaches (lateAndTwice.take 4) 2 (some (.string "first")) none
    (lateAndTwice.drop 5) rfl (by decide +kernel) (by decide +kernel)
  refine ⟨by decide, by decide +kernel, hsettled, ?_, ?_⟩
  · exact hfirst (.resume 2) 2 _ (by rw [hsettled]; exact mem_singleton_self _) rfl
  · rw [← hpending]
    decide +kernel

end Connection

end StoryScript
