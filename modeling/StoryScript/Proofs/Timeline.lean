import Mathlib.Data.List.Chain
import StoryScript.Limiter.Timeline
import StoryScript.Proofs.Limiter

/-!
Limits over time for one document, whatever signals are sent and however long the actions take
(`Chronicle`). What can happen at a time is said once (`Timeline.Step`). A task that waits for signals
to stop may find its timer run out and a signal come at once, and take either. The clock moves on only
when nothing more can happen (`Timeline.Leads`), and what happens when it does is of this kind
(`Timeline.Paced.leads_advanceWithin`).

A document's actions are paced (`Timeline.Paced`): they take turns, a throttled one starts an interval
after the end of the one before, a debounced one after an interval without signals, and a task that
waits for a signal has acted since the last one was sent (`Chronicle.actions_paced`).
-/

namespace StoryScript

open Limiter List Option

namespace TimelineEvent

def start? : TimelineEvent → Option Nat
  | started _ time => some time
  | ended .. => none

/-- Whether an event may be the next of a document: an action ends after it has started, and starts
when a gap has passed since the end of the one before. -/
def Precedes (gap : Nat) : TimelineEvent → TimelineEvent → Prop
  | started _ start, ended _ stop => start ≤ stop
  | ended _ stop, started _ start => stop + gap ≤ start
  | _, _ => False

theorem Precedes.mono {gap less : Nat} {x y : TimelineEvent} (h : x.Precedes gap y)
    (hl : less ≤ gap) : x.Precedes less y := by
  cases x <;> cases y
  case ended.started => exact (Nat.add_le_add_left hl _).trans h
  all_goals exact h

end TimelineEvent

open TimelineEvent

/-- The time that a limiter leaves between two actions. -/
def Limiter.gap (l : Limiter) : Nat :=
  match l.mode with
  | .throttle => l.interval
  | .debounce => 0

namespace Timeline

variable {timeline after last : Timeline} {sent : List Nat} {events new : List TimelineEvent}
  {uri : Uri} {task moved : LimiterTask} {time later : Nat}

/-- What a task does at the present time. -/
abbrev next (timeline : Timeline) (timerFirst : Bool) (task : LimiterTask) : TaskStep :=
  task.next timeline.limiter.mode timeline.limiter.interval timeline.now timerFirst

/-- What a task can do at the present time. -/
abbrev Goes (timeline : Timeline) (task : LimiterTask) (step : TaskStep) : Prop :=
  task.Goes timeline.limiter.mode timeline.limiter.interval timeline.now step

/-- All that can happen at the present time. -/
inductive Step (timeline : Timeline) : Timeline → List TimelineEvent → Prop
  | ended {action : RunningAction} (h : action ∈ timeline.running)
      (hend : action.endTime ≤ timeline.now) :
      Step timeline (timeline.ended action) [.ended action.uri timeline.now]
  | stop {task : LimiterTask} (timerFirst : Bool) (h : task ∈ timeline.limiter.tasks)
      (hnext : timeline.next timerFirst task = .stop) :
      Step timeline { timeline with limiter := timeline.limiter.remove task.number } []
  | move {task moved : LimiterTask} (timerFirst : Bool) (h : task ∈ timeline.limiter.tasks)
      (hnext : timeline.next timerFirst task = .move moved) :
      Step timeline { timeline with limiter := timeline.limiter.put moved } []
  | act {task moved : LimiterTask} (timerFirst : Bool) (h : task ∈ timeline.limiter.tasks)
      (hnext : timeline.next timerFirst task = .act moved) :
      Step timeline (timeline.started moved) [.started moved.uri timeline.now]

theorem goes_of_next {timerFirst : Bool} {step : TaskStep}
    (h : timeline.next timerFirst task = step) : timeline.Goes task step :=
  LimiterTask.goes_iff.mpr ⟨timerFirst, h⟩

theorem step_of_step? (h : timeline.step? = some (after, new)) : timeline.Step after new := by
  unfold step? at h
  rw [orElse_eq_orElse, orElse_eq_or, or_eq_some_iff] at h
  obtain he | ⟨-, ht⟩ := h
  · obtain ⟨action, hf, heq⟩ := map_eq_some_iff.mp he
    cases heq
    exact .ended (mem_of_find?_eq_some hf) (by simpa using find?_some hf)
  · unfold taskStep? at ht
    split at ht
    · cases ht
    · cases ht
    all_goals
      obtain ⟨hmem, hnext, -⟩ := mem_of_next? ‹_›
      cases ht
    · exact .stop false hmem hnext
    · exact .move false hmem hnext
    · exact .act false hmem hnext

/-- Nothing can happen: no action is at its end, and all tasks wait. -/
theorem step?_eq_none_iff : timeline.step? = none ↔
    (∀ action ∈ timeline.running, timeline.now < action.endTime) ∧
      ∀ task ∈ timeline.limiter.tasks, timeline.next false task = .wait := by
  rw [step?, orElse_eq_orElse, orElse_eq_or, or_eq_none_iff]
  refine and_congr (by simp [actionEnd?]) ?_
  rw [← next?_eq_none_iff, taskStep?]
  split
  · simp [*]
  · rename_i hnext
    exact absurd rfl (mem_of_next? hnext).2.2
  all_goals simp [*]

/-- Something happens when a time has come at which something should. -/
theorem now_lt_deadline (h : timeline.step? = none) {deadline : Nat}
    (hd : deadline ∈ timeline.deadline?) : timeline.now < deadline := by
  obtain ⟨hr, hw⟩ := step?_eq_none_iff.mp h
  obtain hd | hd := mem_append.mp (min?_mem hd)
  · obtain ⟨task, ht, hd⟩ := mem_filterMap.mp (min?_mem (mem_toList.mp hd))
    cases goes_of_next (hw task ht) <;> simp_all [TaskPhase.deadline?]
  · obtain ⟨action, ha, rfl⟩ := mem_map.mp hd
    exact hr action ha

/-- The clock can move on to a time: nothing can happen now or before it. -/
structure Waits (timeline : Timeline) (time : Nat) : Prop where
  later : timeline.now < time
  quiet : timeline.step? = none
  first : ∀ deadline ∈ timeline.deadline?, time ≤ deadline

/-- What can happen until another timeline is reached, if nothing is sent. -/
inductive Leads : Timeline → List TimelineEvent → Timeline → Prop
  | refl (timeline : Timeline) : Leads timeline [] timeline
  | step {timeline after last : Timeline} {new events : List TimelineEvent}
      (hstep : timeline.Step after new) (h : Leads after events last) :
      Leads timeline (new ++ events) last
  | wait {timeline last : Timeline} {time : Nat} {events : List TimelineEvent}
      (hwaits : timeline.Waits time) (h : Leads { timeline with now := time } events last) :
      Leads timeline events last

theorem Leads.limiter_eq (h : timeline.Leads events last) :
    last.limiter.mode = timeline.limiter.mode ∧
      last.limiter.interval = timeline.limiter.interval := by
  induction h with
  | refl => exact ⟨rfl, rfl⟩
  | step hstep _ ih =>
    rw [ih.1, ih.2]
    cases hstep <;> exact ⟨rfl, rfl⟩
  | wait _ _ ih => exact ih

theorem leads_wait (hn : timeline.now ≤ time) (hq : timeline.step? = none)
    (hf : ∀ deadline ∈ timeline.deadline?, time ≤ deadline)
    (h : Leads { timeline with now := time } events last) : timeline.Leads events last := by
  obtain hlt | rfl := Nat.lt_or_eq_of_le hn
  · exact .wait ⟨hlt, hq, hf⟩ h
  · exact h

/-- The clock moves on until something can happen. -/
theorem leads_of_deadline {deadline : Nat} (hd : timeline.deadline? = some deadline)
    (hq : timeline.now < deadline → timeline.step? = none)
    (h : Leads { timeline with now := max timeline.now deadline } events last) :
    timeline.Leads events last := by
  obtain hle | hlt := (Nat.lt_or_ge timeline.now deadline).symm
  · rwa [Nat.max_eq_left hle] at h
  · rw [Nat.max_eq_right hlt.le] at h
    exact .wait ⟨hlt, hq hlt, fun other ho ↦ (some.inj (hd.symm.trans ho)).le⟩ h

/-- What happens until some time happens now, or when the clock has moved on. -/
theorem leads_of_stepUntil? (h : timeline.stepUntil? time = some (after, new))
    (hn : timeline.now ≤ time) : ∃ later ≤ time, { timeline with now := later }.Step after new ∧
      ∀ {events last}, Leads { timeline with now := later } events last →
        timeline.Leads events last := by
  unfold stepUntil? at h
  rw [orElse_eq_orElse, orElse_eq_or, or_eq_some_iff] at h
  obtain hnow | ⟨hq, hlater⟩ := h
  · exact ⟨timeline.now, hn, step_of_step? hnow, id⟩
  · split at hlater
    · cases hlater
    · split_ifs at hlater with ht
      exact ⟨_, Nat.max_le.mpr ⟨hn, ht⟩, step_of_step? hlater, leads_of_deadline ‹_› fun _ ↦ hq⟩

/-- Whether an event may be the next. -/
def Allows (timeline : Timeline) (events : List TimelineEvent) (event : TimelineEvent) : Prop :=
  ∀ last ∈ events.getLast?, last.Precedes timeline.limiter.gap event

/-- What may happen next, by the phase of the task. One that waits for signals to stop has waited
since the last of them, but for those that have just come. -/
def Keeps (timeline : Timeline) (sent : List Nat) (events : List TimelineEvent)
    (task : LimiterTask) : Prop :=
  match task.phase with
  | .acting => timeline.Allows events (.ended task.uri timeline.now)
  | .idle => timeline.Allows events (.started task.uri timeline.now)
  | .resting time => timeline.limiter.mode = .throttle ∧
      timeline.Allows events (.started task.uri time)
  | .settling time => timeline.limiter.mode = .debounce ∧
      timeline.Allows events (.started task.uri timeline.now) ∧
      ∀ signal ∈ sent, signal + timeline.limiter.interval ≤ time ∨
        signal = timeline.now ∧ 0 < task.signals

/-- A task without signals that does not wait for them to stop has acted since the last. -/
def Heeds (sent : List Nat) (events : List TimelineEvent) (task : LimiterTask) : Prop :=
  task.signals = 0 → (∀ time, task.phase ≠ .settling time) →
    ∀ signal ∈ sent, ∃ start ∈ (events.filterMap start?).getLast?, signal ≤ start

/-- What runs is the action of the task, if it acts. -/
def Runs (timeline : Timeline) (task : LimiterTask) : Prop :=
  match task.phase with
  | .acting => ∃ endTime, timeline.running = [⟨task.number, task.uri, endTime⟩]
  | _ => timeline.running = []

/-- The signals and the events of a document that was not cancelled. -/
structure Paced (timeline : Timeline) (uri : Uri) (sent : List Nat) (events : List TimelineEvent) :
    Prop where
  sent_le : ∀ signal ∈ sent, signal ≤ timeline.now
  starts_le : ∀ start ∈ events.filterMap start?, start ≤ timeline.now
  chain : events.IsChain (Precedes timeline.limiter.gap)
  quiet : timeline.limiter.mode = .debounce → ∀ start ∈ events.filterMap start?, ∀ signal ∈ sent,
    ¬ (start < signal + timeline.limiter.interval ∧ signal < start)
  state : timeline.limiter.tasks = [] ∧ timeline.running = [] ∧ events = [] ∧ sent = [] ∨
    ∃ task, timeline.limiter.tasks = [task] ∧ (task.uri = uri ∧ task.isClosed = false) ∧
      timeline.Runs task ∧ timeline.Keeps sent events task ∧ Heeds sent events task

theorem Runs.running_eq (h : timeline.Runs task) (hp : task.phase ≠ .acting) :
    timeline.running = [] := by
  unfold Runs at h
  cases ht : task.phase <;> simp_all

theorem Runs.eq_of_mem (h : timeline.Runs task) {action : RunningAction}
    (ha : action ∈ timeline.running) :
    task.phase = .acting ∧ timeline.running = [action] ∧ action.task = task.number ∧
      action.uri = task.uri := by
  unfold Runs at h
  cases ht : task.phase <;> rw [ht] at h
  case acting =>
    obtain ⟨endTime, hr⟩ := h
    obtain rfl := mem_singleton.mp (hr ▸ ha)
    exact ⟨rfl, hr, rfl, rfl⟩
  all_goals simp_all

theorem Allows.mono {start : Nat} (h : timeline.Allows events (.started uri start))
    (hle : start ≤ later) : timeline.Allows events (.started uri later) := by
  intro last hlast
  cases last with
  | started => exact h _ hlast
  | ended _ stop => exact (h _ hlast : stop + _ ≤ start).trans hle

theorem Keeps.wait (h : timeline.Keeps sent events task) (hl : timeline.now ≤ later)
    (hg : timeline.Goes task .wait) : { timeline with now := later }.Keeps sent events task := by
  unfold Keeps at h ⊢
  cases hp : task.phase with rw [hp] at h
  | idle => exact h.mono hl
  | resting => exact h
  | settling time =>
    have hs : task.signals = 0 := by cases hg <;> simp_all [TaskPhase.deadline?]
    exact ⟨h.1, h.2.1.mono hl, fun signal hsent ↦
      .inl ((h.2.2 signal hsent).resolve_right fun hnew ↦ hnew.2.ne' hs)⟩
  | acting =>
    intro last hlast
    cases last with
    | started _ start => exact (h _ hlast : start ≤ timeline.now).trans hl
    | ended => exact h _ hlast

/-- What a task needs to act: an action may start, and no signal was sent of late, but perhaps right
now. -/
theorem Keeps.of_act (h : timeline.Keeps sent events task) (hg : timeline.Goes task (.act moved)) :
    timeline.Allows events (.started task.uri timeline.now) ∧
      (timeline.limiter.mode = .debounce → ∀ signal ∈ sent,
        signal + timeline.limiter.interval ≤ timeline.now ∨ signal = timeline.now) := by
  unfold Keeps at h
  cases hg with rw [‹task.phase = _›] at h
  | lead _ _ hm => exact ⟨h, fun hd ↦ by simp [hm] at hd⟩
  | trail _ ht => exact ⟨h.2.mono ht, fun hd ↦ by simp [h.1] at hd⟩
  | settle _ ht => exact ⟨h.2.1, fun _ signal hs ↦ (h.2.2 signal hs).imp ht.trans' And.left⟩

namespace Paced

variable (h : timeline.Paced uri sent events) {new : List TimelineEvent}

include h

theorem wait (hw : timeline.Waits time) : { timeline with now := time }.Paced uri sent events where
  sent_le signal hs := (h.sent_le signal hs).trans hw.later.le
  starts_le start hst := (h.starts_le start hst).trans hw.later.le
  chain := h.chain
  quiet := h.quiet
  state := h.state.imp_right fun ⟨task, ht, ho, hr, hk, hh⟩ ↦ by
    have hnext := (step?_eq_none_iff.mp hw.quiet).2 task (ht ▸ mem_singleton_self task)
    exact ⟨task, ht, ho, hr, hk.wait hw.later.le (goes_of_next hnext), hh⟩

/-- The task goes on with less to do, and at most one thing happens. -/
theorem of_moved {running : List RunningAction} {runs : Nat} (ht : timeline.limiter.tasks = [task])
    (hm : moved.Continues task) (hw : moved.weight < task.weight)
    (ho : task.uri = uri ∧ task.isClosed = false)
    (hr : { timeline with limiter := timeline.limiter.put moved, running, runs }.Runs moved)
    (hc : new.IsChain (Precedes timeline.limiter.gap))
    (ha : ∀ event ∈ new, timeline.Allows events event)
    (hst : ∀ start ∈ new.filterMap start?, start = timeline.now ∧
      (timeline.limiter.mode = .debounce → ∀ signal ∈ sent,
        signal + timeline.limiter.interval ≤ timeline.now ∨ signal = timeline.now))
    (hk : timeline.Keeps sent (events ++ new) moved) (hh : Heeds sent (events ++ new) moved) :
    { timeline with limiter := timeline.limiter.put moved, running, runs }.Paced
        uri sent (events ++ new) ∧
      (timeline.limiter.put moved).weight < timeline.limiter.weight := by
  have hp := tasks_put_of_singleton ht hm
  refine ⟨⟨h.sent_le, ?_, ?_, fun hmo ↦ ?_, ?_⟩, by simpa [weight, hp, ht] using hw⟩
  · rw [filterMap_append]
    exact forall_mem_append.mpr ⟨h.starts_le, fun start hs ↦ (hst start hs).1.le⟩
  · exact h.chain.append hc fun last hlast event hevent ↦
      ha event (mem_of_mem_head? hevent) last hlast
  · rw [filterMap_append]
    refine forall_mem_append.mpr ⟨h.quiet hmo, fun start hs signal hsignal hlate ↦ ?_⟩
    obtain ⟨rfl, hq⟩ := hst start hs
    obtain hsent | rfl := hq hmo signal hsignal
    · exact Nat.not_lt.mpr hsent hlate.1
    · exact Nat.lt_irrefl _ hlate.2
  · exact .inr ⟨moved, hp, ⟨hm.2.1.trans ho.1, hm.2.2.trans ho.2⟩, hr, hk, hh⟩

theorem step (hst : timeline.Step after new) :
    after.Paced uri sent (events ++ new) ∧ after.limiter.weight < timeline.limiter.weight := by
  obtain ⟨ht, hr, -⟩ | ⟨task, ht, ho, hru, hk, hh⟩ := h.state
  · cases hst <;> simp_all
  cases hst with
  | ended ha hend =>
    rename_i action
    obtain ⟨hp, hr, hn, hu⟩ := hru.eq_of_mem ha
    simp only [Keeps, hp] at hk
    rw [Timeline.ended, ended_of_singleton ht hn, hu]
    refine h.of_moved ht (task.continues_ended _ _ _) ?_ ho ?_ (isChain_singleton _)
      (forall_mem_singleton.mpr hk) (by rintro _ ⟨⟩) ?_ ?_
    · unfold LimiterTask.weight LimiterTask.ended
      cases timeline.limiter.mode <;> simp [hp]
    · unfold Runs LimiterTask.ended
      cases timeline.limiter.mode <;> simp [hr]
    · unfold Keeps LimiterTask.ended Allows gap
      rw [getLast?_concat]
      cases timeline.limiter.mode with
      | throttle => exact ⟨rfl, by rintro last ⟨⟩; exact Nat.le_refl _⟩
      | debounce => rintro last ⟨⟩; exact Nat.le_refl _
    · unfold LimiterTask.ended
      rw [Heeds, filterMap_append, show filterMap start? [.ended task.uri timeline.now] = [] from rfl,
        append_nil]
      cases timeline.limiter.mode <;>
        exact fun hsi _ ↦ hh hsi (by rw [hp]; rintro _ ⟨⟩)
  | stop timerFirst hm hnext =>
    rw [ht, mem_singleton] at hm
    cases goes_of_next hnext
    simp_all
  | move timerFirst hm hnext =>
    rename_i other moved
    obtain rfl : task = other := (mem_singleton.mp (ht ▸ hm)).symm
    have hg := goes_of_next hnext
    obtain ⟨hmo, hlt⟩ := hg.lightens
    have hr := hru.running_eq (hg.phase_ne_acting (by rintro ⟨⟩))
    refine h.of_moved ht hmo hlt ho (by cases hg <;> exact hr) .nil
      (forall_mem_nil _) (by rintro _ ⟨⟩) ?_ ?_
    all_goals rw [append_nil]
    · unfold Keeps at hk
      have hw := fun signal hs ↦ Or.inl (b := signal = timeline.now ∧ 0 < moved.signals)
        (Nat.add_le_add_right (h.sent_le signal hs) timeline.limiter.interval)
      cases hg with rw [‹task.phase = _›] at hk
      | rest _ hti => exact hk.2.mono hti
      | gather _ _ hmod => exact ⟨hmod, hk, hw⟩
      | regather => exact ⟨hk.1, hk.2.1, hw⟩
    · cases hg with
      | rest hp _ hsi => exact fun _ _ ↦ hh hsi (by rw [hp]; rintro _ ⟨⟩)
      | gather | regather => exact fun _ hp ↦ absurd rfl (hp _)
  | act timerFirst hm hnext =>
    rename_i other moved
    obtain rfl : task = other := (mem_singleton.mp (ht ▸ hm)).symm
    have hg := goes_of_next hnext
    obtain ⟨hmo, hlt⟩ := hg.lightens
    have hp := hg.phase_eq_acting
    have hr := hru.running_eq (hg.phase_ne_acting (by rintro ⟨⟩))
    obtain ⟨hal, hq⟩ := hk.of_act hg
    rw [hmo.2.1]
    refine h.of_moved ht hmo (by omega) ho (by simp [Runs, hr, hp]) (isChain_singleton _)
      (forall_mem_singleton.mpr hal) (fun start hsta ↦ ⟨mem_singleton.mp hsta, hq⟩) ?_
      fun _ _ signal hs ↦ ?_
    · simp only [Keeps, hp, Allows, getLast?_concat]
      rintro last ⟨⟩
      exact Nat.le_refl _
    · rw [filterMap_append]
      exact ⟨timeline.now, getLast?_concat, h.sent_le signal hs⟩

theorem leads (hl : timeline.Leads new last) : last.Paced uri sent (events ++ new) := by
  induction hl generalizing events with
  | refl => rwa [append_nil]
  | step hst _ ih =>
    rw [← append_assoc]
    exact ih (h.step hst).1
  | wait hw _ ih => exact ih (h.wait hw)

/-- What happens when the clock moves on can happen. -/
theorem leads_advanceWithin {steps : Nat} (hs : timeline.limiter.weight ≤ steps)
    (hn : timeline.now ≤ time) : timeline.Leads (timeline.advanceWithin time steps).2
      (timeline.advanceWithin time steps).1 := by
  induction steps generalizing timeline events with
  | zero =>
    obtain ⟨ht, hr, -⟩ | ⟨task, ht, -⟩ := h.state
    · refine leads_wait hn ?_ ?_ (.refl _) <;>
        simp [step?_eq_none_iff, deadline?, Limiter.deadline?, ht, hr]
    · have hp := task.weight_pos
      simp only [Limiter.weight, ht, foldr_cons, foldr_nil] at hs
      omega
  | succ steps ih =>
    rw [advanceWithin]
    split
    · rename_i hnone
      rw [stepUntil?, orElse_eq_orElse, orElse_eq_or, or_eq_none_iff] at hnone
      obtain ⟨hq, hnone⟩ := hnone
      refine leads_wait hn hq (fun deadline hd ↦ ?_) (.refl _)
      by_contra hlt
      simp only [mem_def.mp hd, if_pos (Nat.le_of_not_le hlt)] at hnone
      have hpassed := now_lt_deadline hnone hd
      exact Nat.not_lt.mpr (Nat.le_max_right _ _) hpassed
    · rename_i after new heq
      obtain ⟨later, ht, hst, hleads⟩ := leads_of_stepUntil? heq hn
      obtain ⟨hpaced, hlt⟩ := (h.leads (hleads (.refl _))).step hst
      have hle : after.now ≤ time := by cases hst <;> exact ht
      exact hleads (.step hst (ih hpaced (Nat.le_of_lt_succ (hlt.trans_le hs)) hle))

/-- A signal is heard by the task, or by one that is started for it. -/
theorem signal : (timeline.signal uri 1).Paced uri (sent ++ [timeline.now]) events := by
  have hh (task : LimiterTask) (started : Nat) (ho : task.uri = uri ∧ task.isClosed = false)
      (hsi : 0 < task.signals) (hr : timeline.Runs task)
      (hk : timeline.Keeps (sent ++ [timeline.now]) events task) :
      { timeline with limiter := { timeline.limiter with tasks := [task], started } }.Paced
        uri (sent ++ [timeline.now]) events := by
    refine ⟨forall_mem_append.mpr ⟨h.sent_le, forall_mem_singleton.mpr (Nat.le_refl _)⟩,
      h.starts_le, h.chain, fun hm start hs ↦ forall_mem_append.mpr
        ⟨h.quiet hm start hs, forall_mem_singleton.mpr fun hl ↦ ?_⟩,
      .inr ⟨task, rfl, ho, hr, hk, fun hn ↦ absurd hn hsi.ne'⟩⟩
    exact Nat.not_lt.mpr (h.starts_le start hs) hl.2
  obtain ⟨ht, hru, rfl, rfl⟩ | ⟨task, ht, ho, hr, hk, -⟩ := h.state
  · have hne := hh { number := timeline.limiter.started, uri, signals := 1 }
      (timeline.limiter.started + 1) ⟨rfl, rfl⟩ Nat.one_pos (by simp [Runs, hru])
      (by rintro last ⟨⟩)
    simpa [Timeline.signal, Limiter.signal, Limiter.active, ht] using hne
  · have hmo := hh { task with signals := task.signals + 1 } timeline.limiter.started ho
      (Nat.succ_pos _) hr ?_
    · simpa [Timeline.signal, Limiter.signal, Limiter.active, ht, ho] using hmo
    · unfold Keeps at hk ⊢
      cases hp : task.phase with rw [hp] at hk
      | settling =>
        refine ⟨hk.1, hk.2.1, forall_mem_append.mpr ⟨fun signal hs ↦ ?_, forall_mem_singleton.mpr ?_⟩⟩
        · exact (hk.2.2 signal hs).imp_right fun hnew ↦ ⟨hnew.1, Nat.succ_pos _⟩
        · exact .inr ⟨rfl, Nat.succ_pos _⟩
      | _ => exact hk

end Paced

end Timeline

/-- What is done to a document's timeline. -/
inductive TimelineOperation where
  | signal
  /-- The clock moves on. Tasks do what they can when it does, even by nothing. -/
  | sleep (duration : Nat)

/-- A timeline, with the times of the signals that were sent and with what has happened. -/
structure Chronicle where
  timeline : Timeline
  sent : List Nat := []
  events : List TimelineEvent := []

namespace Chronicle

/-- The chronicle of a limiter that nothing has been sent to. -/
def ofLimiter (mode : LimiterMode) (interval : Nat) (durations : Nat → Nat) : Chronicle where
  timeline := { limiter := { mode, interval }, durations }

def sleep (chronicle : Chronicle) (duration : Nat) : Chronicle :=
  let (timeline, events) := chronicle.timeline.advance (chronicle.timeline.now + duration)
  { chronicle with timeline, events := chronicle.events ++ events }

def perform (uri : Uri) (chronicle : Chronicle) : TimelineOperation → Chronicle
  | .signal =>
    { chronicle with
      timeline := chronicle.timeline.signal uri 1
      sent := chronicle.sent ++ [chronicle.timeline.now] }
  | .sleep duration => chronicle.sleep duration

def performAll (uri : Uri) (operations : List TimelineOperation) (chronicle : Chronicle) :
    Chronicle :=
  operations.foldl (perform uri) chronicle

/-- When actions have started. -/
def starts (chronicle : Chronicle) : List Nat :=
  chronicle.events.filterMap start?

/-- The chronicles of a document that is not cancelled. Signals are sent at any time, and between any
two steps. -/
inductive Reached (mode : LimiterMode) (interval : Nat) (durations : Nat → Nat) (uri : Uri) :
    Chronicle → Prop
  | start : Reached mode interval durations uri (ofLimiter mode interval durations)
  | signal {chronicle : Chronicle} (h : Reached mode interval durations uri chronicle) :
      Reached mode interval durations uri (chronicle.perform uri .signal)
  | leads {chronicle : Chronicle} {timeline : Timeline} {events : List TimelineEvent}
      (h : Reached mode interval durations uri chronicle)
      (hleads : chronicle.timeline.Leads events timeline) : Reached mode interval durations uri
        { chronicle with timeline, events := chronicle.events ++ events }

variable {mode : LimiterMode} {interval : Nat} {durations : Nat → Nat} {uri : Uri}
  {chronicle : Chronicle}

namespace Reached

variable (h : chronicle.Reached mode interval durations uri)

include h

theorem paced : chronicle.timeline.Paced uri chronicle.sent chronicle.events := by
  induction h with
  | start =>
    exact ⟨forall_mem_nil _, forall_mem_nil _, .nil, fun _ ↦ forall_mem_nil _,
      .inl ⟨rfl, rfl, rfl, rfl⟩⟩
  | signal _ ih => exact ih.signal
  | leads _ hleads ih => exact ih.leads hleads

theorem limiter_eq : chronicle.timeline.limiter.mode = mode ∧
    chronicle.timeline.limiter.interval = interval := by
  induction h with
  | start => exact ⟨rfl, rfl⟩
  | signal _ ih =>
    simp only [perform, Timeline.signal, Limiter.signal]
    split_ifs <;> exact ih
  | leads _ hleads ih => exact ⟨hleads.limiter_eq.1.trans ih.1, hleads.limiter_eq.2.trans ih.2⟩

end Reached

theorem reached_performAll (mode : LimiterMode) (interval : Nat) (durations : Nat → Nat) (uri : Uri)
    (operations : List TimelineOperation) :
    ((ofLimiter mode interval durations).performAll uri operations).Reached
      mode interval durations uri := by
  refine foldlRecOn operations (perform uri) .start fun chronicle h operation _ ↦ ?_
  cases operation with
  | signal => exact h.signal
  | sleep duration =>
    exact h.leads (h.paced.leads_advanceWithin (Nat.le_refl _) (Nat.le_add_right _ duration))

end Chronicle

end StoryScript
