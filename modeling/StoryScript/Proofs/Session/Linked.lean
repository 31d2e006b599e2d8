import StoryScript.Proofs.Engine.Notices
import StoryScript.Proofs.Engine.Rest
import StoryScript.Session

/-!
A session over the built-in compiler, round by round. The compiler answers each request at once, so
in a round all calls of the engine go out and all their answers come back: what is left of a round
is that the engine has been served (`Session.settleWithin_linked`), and the channel has nothing
under way. Request numbers are words, and are told apart as long as no more calls are made in one
round than there are words.
-/

namespace StoryScript

open EngineEvent List Worker

namespace Worker

/-- What the compiler answers to a call. -/
def reply (worker : Worker) (readFile : Uri → Option String) (r : Uri) : Except Failure Json :=
  match compileParamsOf (compileParams r) with
  | .error f => .error (.remote invalidParams f.message)
  | .ok r =>
    match Program.build? worker.annotate worker.builtins (worker.load readFile) r with
    | none => .error (.remote invalidParams ("unknown document: " ++ r.text))
    | some p => .ok p.toJson

/-- What the engine gets of the compiler's answer to a call. -/
def result (worker : Worker) (readFile : Uri → Option String) (r : Uri) : Except Failure Program :=
  Session.programOf (worker.reply readFile r)

/-- A request is answered by news of it and then by one response. -/
theorem respond_compile (worker : Worker) (readFile : Uri → Option String) (id : UInt64) (r : Uri) :
    ∃ (news : List Json) (res : Option Json) (error : Option RemoteError),
      worker.respond readFile id Message.compileMethod (compileParams r) =
        news.map (.progress id (Message.progressMethod Message.compileMethod)) ++
          [.response id res error] ∧
      Channel.resultOf res error = worker.reply readFile r := by
  unfold respond reply
  rw [if_pos rfl]
  cases compileParamsOf (compileParams r) with
  | error fault => exact ⟨[], none, some ⟨invalidParams, fault.message⟩, rfl, rfl⟩
  | ok r =>
    dsimp only
    unfold compile
    dsimp only
    cases Program.build? worker.annotate worker.builtins (worker.load readFile) r with
    | none => exact ⟨[], none, some ⟨invalidParams, "unknown document: " ++ r.text⟩, rfl, rfl⟩
    | some p =>
      refine ⟨(Program.progress worker.annotate (worker.load readFile) r).map
        fun e ↦ CompileProgress.toJson ⟨e.1, e.2⟩, some p.toJson, none, ?_, rfl⟩
      rw [map_map]
      rfl

end Worker

/-- A call that has been put to the compiler. -/
structure Posted where
  id : UInt64
  call : Nat
  root : Uri

namespace Posted

def message (posted : Posted) : Message :=
  .request posted.id Message.compileMethod (compileParams posted.root)

def pending (posted : Posted) : PendingRequest :=
  ⟨posted.id, Message.compileMethod, true, none⟩

/-- What a session remembers of the call. -/
def entry (posted : Posted) : UInt64 × Nat :=
  (posted.id, posted.call)

/-- What the engine asked for. -/
def asked (posted : Posted) : Nat × Uri :=
  (posted.call, posted.root)

/-- Calls with the numbers that their requests get. -/
def number : UInt64 → List (Nat × Uri) → List Posted
  | _, [] => []
  | id, (call, r) :: tl => ⟨id, call, r⟩ :: number (id + 1) tl

theorem asked_number (id : UInt64) (cs : List (Nat × Uri)) : (number id cs).map asked = cs := by
  induction cs generalizing id with
  | nil => rfl
  | cons e r ih =>
    rw [number, map_cons, ih]
    rfl

theorem succ_add (id : UInt64) (n : Nat) : id + 1 + UInt64.ofNat n = id + UInt64.ofNat (n + 1) := by
  rw [UInt64.ofNat_add, UInt64.add_comm (UInt64.ofNat n), ← UInt64.add_assoc]
  rfl

theorem ids_number (id : UInt64) (cs : List (Nat × Uri)) :
    (number id cs).map Posted.id =
      (List.range cs.length).map fun index ↦ id + UInt64.ofNat index := by
  induction cs generalizing id with
  | nil => rfl
  | cons e r ih =>
    rw [number, map_cons, ih, length_cons, range_succ_eq_map, map_cons, map_map]
    exact cons_eq_cons.mpr ⟨(UInt64.add_zero id).symm,
      map_congr_left fun index _ ↦ succ_add id index⟩

/-- There are as many request numbers as words. -/
theorem nodup_ids_number (id : UInt64) {cs : List (Nat × Uri)} (h : cs.length ≤ 2 ^ 64) :
    ((number id cs).map Posted.id).Nodup := by
  rw [ids_number]
  refine nodup_range.map_on fun x hf y hs heq ↦ ?_
  rw [mem_range] at hf hs
  have hw : UInt64.ofNat x = UInt64.ofNat y := by simpa using heq
  have hn := congrArg UInt64.toNat hw
  rwa [UInt64.toNat_ofNat_of_lt' (Nat.lt_of_lt_of_le hf h),
    UInt64.toNat_ofNat_of_lt' (Nat.lt_of_lt_of_le hs h)] at hn

end Posted

namespace Channel

variable {channel : Channel} {now : Nat}

theorem expire_of_no_deadline (h : ∀ r ∈ channel.pending, r.deadline = none) :
    channel.expire now = (channel, []) := by
  have ho : channel.pending.filter (isOverdue now) = [] :=
    filter_eq_nil_iff.mpr fun r hr ↦ by simp [isOverdue, h r hr]
  rw [expire, ho]
  rfl

/-- A compiler that listens is sent a request at once, and given all the time it takes. -/
theorem request_of_ready (ht : channel.timeout = none) (hr : channel.isReady = true)
    (hc : channel.isClosed = false) (hd : channel.isDeaf = false)
    (hp : ∀ r ∈ channel.pending, r.deadline = none) (m : String) (ps : Json) (l : Bool) :
    channel.request now m ps l =
      ({ channel with
          nextId := channel.nextId + 1
          pending := channel.pending ++ [⟨channel.nextId, m, l, none⟩] },
        [.sent (.request channel.nextId m ps)]) := by
  let n : Channel :=
    { channel with
      nextId := channel.nextId + 1
      pending := channel.pending ++ [⟨channel.nextId, m, l, none⟩] }
  have he : n.expire now = (n, []) :=
    expire_of_no_deadline (forall_mem_append.mpr ⟨hp, forall_mem_singleton.mpr rfl⟩)
  have hn : { channel with nextId := channel.nextId + 1 }.deadlineFrom now = none := by
    rw [deadlineFrom, ht, Option.map_none]
  unfold request
  dsimp only
  rw [if_neg (ne_true_of_eq_false hc), if_pos hr, if_neg (ne_true_of_eq_false hd), hn]
  change ((n.expire now).1, .sent (.request channel.nextId m ps) :: (n.expire now).2) = _
  rw [he]

end Channel

theorem Engine.notice?_serve (engine : Engine) (as : Uri → Except Failure Program)
    (cs : List (Nat × Uri)) :
    (engine.serve as cs).2.filterMap notice? = [] := by
  induction cs generalizing engine with
  | nil => rfl
  | cons e tl ih =>
    obtain ⟨call, r⟩ := e
    have hs : (engine.step (.answer call (as r))).2.filterMap notice? = [] := by
      cases engine.notifies_step (.answer call (as r)) with
      | nothing hn hsr => exact hn
      | first notice l hi => cases hi
    rw [serve_cons, filterMap_append, hs, ih]
    rfl

namespace Session

section Round

variable (engine : Engine) (worker : Worker) (nextId : UInt64) (posted : List Posted)
  (outgoing : List Message)

/-- A session over the built-in compiler, whose requests have no timeout, in the middle of a round: some
calls have been put to the compiler and are not answered. -/
def inRound : Session Worker where
  engine := engine
  channel := { isReady := true, nextId, pending := posted.map Posted.pending }
  compiler := some worker
  outgoing := outgoing
  requests := posted.reverse.map Posted.entry

/-- A session over the built-in compiler with nothing under way. -/
def linked : Session Worker :=
  inRound engine worker nextId [] []

theorem issueOne_called (call : Nat) (r : Uri) :
    (inRound engine worker nextId posted outgoing).issueOne (.called call r) =
      (inRound engine worker (nextId + 1) (posted ++ [⟨nextId, call, r⟩])
        (outgoing ++ [Posted.message ⟨nextId, call, r⟩]), []) := by
  have hr : (inRound engine worker nextId posted outgoing).channel.request
      engine.now Message.compileMethod (compileParams r) true =
      ((inRound engine worker (nextId + 1) (posted ++ [⟨nextId, call, r⟩])
        outgoing).channel, [.sent (Posted.message ⟨nextId, call, r⟩)]) := by
    have hp : ∀ r ∈ posted.map Posted.pending, r.deadline = none :=
      forall_mem_map.mpr fun _ _ ↦ rfl
    rw [Channel.request_of_ready rfl rfl rfl rfl hp]
    simp [inRound, Posted.pending, Posted.message]
  have hre : (posted ++ [(⟨nextId, call, r⟩ : Posted)]).reverse.map Posted.entry =
      (nextId, call) :: posted.reverse.map Posted.entry := by
    rw [reverse_append]
    rfl
  unfold issueOne
  dsimp only
  rw [show (inRound engine worker nextId posted outgoing).engine = engine from rfl, hr]
  simp only [absorb, inRound, hre]
  rfl

/-- All calls of a round go out, and nothing else happens. -/
theorem issue_inRound {es : List EngineEvent} (hn : es.filterMap notice? = []) :
    (inRound engine worker nextId posted outgoing).issue es = (inRound engine worker
        (nextId + UInt64.ofNat (es.filterMap called?).length)
        (posted ++ Posted.number nextId (es.filterMap called?))
        (outgoing ++ (Posted.number nextId (es.filterMap called?)).map Posted.message), []) := by
  induction es generalizing nextId posted outgoing with
  | nil =>
    rw [filterMap_nil, Posted.number, map_nil, append_nil, append_nil]
    exact congrArg (fun id ↦ (inRound engine worker id posted outgoing, []))
      (UInt64.add_zero nextId).symm
  | cons e tl ih =>
    cases e with
    | noticed n => cases hn
    | published u diagnostics v => exact ih nextId posted outgoing hn
    | answered t a => exact ih nextId posted outgoing hn
    | called call r =>
      have hl := ih (nextId + 1) (posted ++ [⟨nextId, call, r⟩])
        (outgoing ++ [Posted.message ⟨nextId, call, r⟩]) hn
      have hc : (called call r :: tl).filterMap called? = (call, r) :: tl.filterMap called? := rfl
      rw [issue, issueOne_called engine worker nextId posted outgoing]
      dsimp only
      rw [hl, hc, length_cons, Posted.number, map_cons, Posted.succ_add,
        append_assoc posted, append_assoc outgoing]
      rfl

/-- News of a request changes nothing. -/
theorem receive_news {σ : Type} (s : Session σ) (id : UInt64) (m : String) (news : List Json)
    (ms : List Message) :
    s.receive (news.map (.progress id m) ++ ms) = s.receive ms := by
  induction news with
  | nil => rfl
  | cons v r ih =>
    rw [map_cons, cons_append, receive, ← ih]
    unfold Channel.receive
    dsimp only
    split_ifs
    · rfl
    · rfl

/-- The response to a request answers the engine's call. -/
theorem receive_response {x : Posted} {tl : List Posted}
    (hd : ((x :: tl).map Posted.id).Nodup) (r : Option Json)
    (e : Option RemoteError) :
    (inRound engine worker nextId (x :: tl) outgoing).receive [.response x.id r e] =
      (inRound (engine.step (.answer x.call (programOf (Channel.resultOf r e)))).1
        worker nextId tl outgoing,
        (engine.step (.answer x.call (programOf (Channel.resultOf r e)))).2) := by
  have hot : ∀ o ∈ tl, o.id ≠ x.id := by
    intro o ho heq
    rw [map_cons, nodup_cons] at hd
    exact hd.1 (heq ▸ mem_map_of_mem ho)
  have hpe : ((x :: tl).map Posted.pending).filter
      (fun request ↦ request.id ≠ x.id) = tl.map Posted.pending := by
    rw [map_cons, filter_cons_of_neg (by simp [Posted.pending])]
    refine filter_eq_self.mpr fun request hr ↦ ?_
    obtain ⟨o, ho, rfl⟩ := mem_map.mp hr
    exact decide_eq_true (hot o ho)
  have hs : (inRound engine worker nextId (x :: tl)
      outgoing).channel.settle x.id (Channel.resultOf r e) =
      ((inRound engine worker nextId tl outgoing).channel,
        [.settled x.id (Channel.resultOf r e)]) := by
    rw [Channel.settle, if_pos (by simp [inRound, Channel.isPending, Posted.pending])]
    simp only [inRound, Channel.withdraw, hpe]
    rfl
  have hl : ((x :: tl).reverse.map Posted.entry).lookup x.id = some x.call := by
    have hn : (tl.reverse.map Posted.entry).lookup x.id = none := by
      refine lookup_eq_none_iff.mpr fun pair hp ↦ ?_
      obtain ⟨o, ho, rfl⟩ := mem_map.mp hp
      exact bne_iff_ne.mpr (hot o (mem_reverse.mp ho)).symm
    rw [reverse_cons, map_append, lookup_append, hn]
    simp [Posted.entry]
  have hre : ((x :: tl).reverse.map Posted.entry).filter
      (fun pair ↦ pair.1 ≠ x.id) = tl.reverse.map Posted.entry := by
    have hk : (tl.reverse.map Posted.entry).filter (fun pair ↦ pair.1 ≠ x.id) =
        tl.reverse.map Posted.entry := by
      refine filter_eq_self.mpr fun pair hp ↦ ?_
      obtain ⟨o, ho, rfl⟩ := mem_map.mp hp
      exact decide_eq_true (hot o (mem_reverse.mp ho))
    rw [reverse_cons, map_append, filter_append, hk]
    simp [Posted.entry]
  rw [receive, Channel.receive, hs]
  simp only [absorb, receive, inRound, hl, hre, append_nil]

/-- The compiler answers all calls of a round. -/
theorem give_inRound (readFile : Uri → Option String) (hd : (posted.map Posted.id).Nodup) :
    (inRound engine worker nextId posted outgoing).give (peer readFile)
        (posted.map Posted.message) =
      (inRound (engine.serve (worker.result readFile) (posted.map Posted.asked)).1
        worker nextId [] outgoing,
        (engine.serve (worker.result readFile) (posted.map Posted.asked)).2) := by
  induction posted generalizing engine with
  | nil => rfl
  | cons x r ih =>
    obtain ⟨news, result, e, ha, hre⟩ := worker.respond_compile readFile x.id x.root
    let s := inRound engine worker nextId (x :: r) outgoing
    let received := s.receive
      (worker.respond readFile x.id Message.compileMethod (compileParams x.root))
    have hr : received =
        (inRound (engine.step (.answer x.call (worker.result readFile x.root))).1 worker
          nextId r outgoing,
          (engine.step (.answer x.call (worker.result readFile x.root))).2) := by
      dsimp only [received, s]
      rw [ha, receive_news, receive_response _ _ _ _ hd, hre]
      rfl
    have hg : s.give (peer readFile) ((x :: r).map Posted.message) =
        ((received.1.give (peer readFile) (r.map Posted.message)).1,
          received.2 ++ (received.1.give (peer readFile) (r.map Posted.message)).2) := rfl
    rw [hg, hr]
    dsimp only
    rw [ih _ hd.of_cons]
    rfl

/-- A round: what is issued goes to the compiler, and the answers make the next round. -/
theorem settleWithin_of_round {σ : Type} {s issued given : Session σ} {peer : Peer σ}
    {es a : List EngineEvent} (hi : s.issue es = (issued, []))
    (hg : { issued with outgoing := [] }.give peer issued.outgoing = (given, a))
    (ho : given.outgoing = []) (n : Nat) :
    s.settleWithin peer (n + 1) es = if a = [] then (given, es.filter isVisible)
      else
        ((given.settleWithin peer n a).1,
          es.filter isVisible ++ (given.settleWithin peer n a).2) := by
  rw [settleWithin, hi]
  dsimp only
  rw [hg]
  dsimp only
  rw [ho]
  cases a with
  | nil => exact Prod.ext rfl (append_nil _)
  | cons e r => rfl

variable (readFile : Uri → Option String)

/-- In a round all calls of the engine are answered, and nothing is under way after it. -/
theorem settleWithin_succ (n : Nat) {es : List EngineEvent} (hn : es.filterMap notice? = [])
    (hc : (es.filterMap called?).length ≤ 2 ^ 64) :
    (linked engine worker nextId).settleWithin (peer readFile) (n + 1) es =
      let served := engine.serve (worker.result readFile) (es.filterMap called?)
      let session := linked served.1 worker
        (nextId + UInt64.ofNat (es.filterMap called?).length)
      if served.2 = [] then (session, es.filter isVisible)
      else
        ((session.settleWithin (peer readFile) n served.2).1, es.filter isVisible ++
          (session.settleWithin (peer readFile) n served.2).2) := by
  have hi := issue_inRound engine worker nextId [] [] hn
  refine settleWithin_of_round hi ?_ rfl n
  refine (give_inRound engine worker _ _ [] readFile (Posted.nodup_ids_number nextId hc)).trans ?_
  rw [Posted.asked_number]
  rfl

/-- A notice reaches the compiler before all calls of its round. -/
theorem settleWithin_noticed (rs : Nat) {n : Notice} (hf : n.Fits)
    {l : List EngineEvent} (hn : l.filterMap notice? = [])
    (hc : (l.filterMap called?).length ≤ 2 ^ 64) :
    (linked engine worker nextId).settleWithin (peer readFile) (rs + 1) (.noticed n :: l) =
      (linked engine { worker with documents := noted worker.documents n }
        nextId).settleWithin (peer readFile) (rs + 1) l := by
  let message : Message := .notification n.method n.params
  have hi : (linked engine worker nextId).issue (.noticed n :: l) = _ :=
    issue_inRound engine worker nextId [] [message] hn
  have hp : peer readFile worker message =
      some ({ worker with documents := noted worker.documents n }, []) := by
    dsimp only [peer, handle, message]
    rw [Notice.ofNotification?_params hf]
  rw [settleWithin_succ _ _ _ readFile rs hn hc]
  refine settleWithin_of_round hi ?_ rfl rs
  rw [nil_append, singleton_append]
  unfold give
  dsimp only [inRound]
  rw [hp]
  refine (give_inRound engine { worker with documents := noted worker.documents n }
    _ _ [] readFile (Posted.nodup_ids_number nextId hc)).trans ?_
  rw [Posted.asked_number]
  rfl

/-- As long as no more calls are made than there are request numbers, a session over the built-in
compiler does what its engine does when its calls are answered by the compiler. -/
theorem settleWithin_linked {n : Nat} {es : List EngineEvent} (hno : es.filterMap notice? = [])
    (ho : engine.Owes (callNumbers es)) (hn : engine.Numbered)
    (hu : engine.unrest ≤ 2 ^ 64) :
    ∃ last, (linked engine worker nextId).settleWithin (peer readFile) n es =
      (linked (Engine.converse (worker.result readFile) n engine es).1 worker last,
        (Engine.converse (worker.result readFile) n engine es).2.filter isVisible) := by
  induction n generalizing engine nextId es with
  | zero => exact ⟨nextId, rfl⟩
  | succ n ih =>
    let calls := es.filterMap called?
    have hc : engine.Owes (calls.map Prod.fst ++ []) := by
      rw [append_nil]
      exact ho
    obtain ⟨hs, hle⟩ := hc.serve hn (worker.result readFile)
    have hf : calls.length ≤ 2 ^ 64 := Nat.le_trans ho.length_le hu
    rw [settleWithin_succ engine worker nextId readFile n hno hf, Engine.converse_succ]
    dsimp only
    split_ifs with hne
    · exact ⟨_, rfl⟩
    · obtain ⟨last, hl⟩ := ih _ (nextId + UInt64.ofNat calls.length)
        (Engine.notice?_serve _ _ calls) hs
        (Engine.serve_induction (fun _ _ _ h ↦ h.step _) _ calls hn) (by omega)
      refine ⟨last, ?_⟩
      rw [hl, filter_append]

end Round

end Session

end StoryScript
