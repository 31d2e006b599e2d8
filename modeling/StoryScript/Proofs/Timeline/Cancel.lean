import StoryScript.Proofs.Story
import StoryScript.Proofs.Timeline

/-!
What comes after a document was cancelled, if nothing more is sent. It may be cancelled at any point,
also when a timer has run out and its task has not seen it yet.

A throttle still acts if signals were left in its task. A debounce acts only if its timer had run out
when it was cancelled, or runs out as soon as it is set (`Chronicle.starts_of_cancelled`).
-/

namespace StoryScript

open List TimelineEvent

namespace LimiterTask

variable {mode : LimiterMode} {interval now : Nat} {task moved : LimiterTask}

/-- A task in a phase that its limiter's mode has. -/
def Suits (mode : LimiterMode) (task : LimiterTask) : Prop :=
  match task.phase with
  | .resting _ => mode = .throttle
  | .settling _ => mode = .debounce
  | .idle | .acting => True

/-- A task that has nothing to act for unless signals come. The timer of a debounce has not run out,
and does not run out as soon as it is set for the signals that are there. -/
def Spent (mode : LimiterMode) (interval now : Nat) (task : LimiterTask) : Prop :=
  match mode with
  | .throttle => task.signals = 0
  | .debounce => (task.signals = 0 ∨ 0 < interval) ∧ ∀ time ∈ task.phase.deadline?, now < time

instance : Decidable (task.Spent mode interval now) :=
  match mode with
  | .throttle => inferInstanceAs (Decidable (task.signals = 0))
  | .debounce => inferInstanceAs (Decidable ((_ ∨ _) ∧ ∀ time ∈ task.phase.deadline?, now < time))

/-- A task that will not act again. -/
structure Dropped (mode : LimiterMode) (interval now : Nat) (task : LimiterTask) : Prop where
  closed : task.isClosed = true
  suits : task.Suits mode
  spent : task.Spent mode interval now

namespace Dropped

variable (h : task.Dropped mode interval now)

include h

theorem move (hg : task.Goes mode interval now (.move moved)) : moved.Dropped mode interval now := by
  obtain ⟨hclosed, hsuits, hspent⟩ := h
  refine ⟨hg.lightens.1.2.2.trans hclosed, ?_, ?_⟩
  · cases hg <;> simp_all [Suits]
  · cases mode <;> cases hg <;> simp_all [Suits, Spent, TaskPhase.deadline?] <;> omega

theorem not_act : ¬ task.Goes mode interval now (.act moved) := by
  obtain ⟨-, hsuits, hspent⟩ := h
  intro hg
  cases mode <;> cases hg <;> simp_all [Suits, Spent, TaskPhase.deadline?]
  omega

theorem ended (time : Nat) : (task.ended mode interval time).Dropped mode interval now := by
  obtain ⟨hclosed, -, hspent⟩ := h
  cases mode <;> constructor <;> simp_all [Suits, Spent, LimiterTask.ended, TaskPhase.deadline?]

/-- A task that waited for signals to stop waits no more once it is cancelled. -/
theorem wait (hg : task.Goes mode interval now .wait) (later : Nat) :
    task.Dropped mode interval later := by
  obtain ⟨hclosed, hsuits, hspent⟩ := h
  refine ⟨hclosed, hsuits, ?_⟩
  cases mode with
  | throttle => exact hspent
  | debounce =>
    refine ⟨hspent.1, fun time htime ↦ ?_⟩
    cases hp : task.phase <;> cases hg <;> simp_all [Suits, TaskPhase.deadline?]

end Dropped

end LimiterTask

namespace Timeline

variable {timeline after last : Timeline} {time : Nat} {events new : List TimelineEvent}
  {task : LimiterTask}

/-- No task will act again. -/
def Dropped (timeline : Timeline) : Prop :=
  ∀ task ∈ timeline.limiter.tasks,
    task.Dropped timeline.limiter.mode timeline.limiter.interval timeline.now

theorem Dropped.step (h : timeline.Dropped) (hs : timeline.Step after new) :
    after.Dropped ∧ new.filterMap start? = [] := by
  cases hs with
  | ended =>
    refine ⟨forall_mem_map.mpr fun task ht ↦ ?_, rfl⟩
    split_ifs
    · exact (h task ht).ended _
    · exact h task ht
  | stop => exact ⟨fun task ht ↦ h task (mem_of_mem_filter ht), rfl⟩
  | move _ hm hnext =>
    refine ⟨forall_mem_map.mpr fun task ht ↦ ?_, rfl⟩
    split_ifs
    · exact (h _ hm).move (goes_of_next hnext)
    · exact h task ht
  | act _ hm hnext => exact absurd (goes_of_next hnext) (h _ hm).not_act

theorem Dropped.wait (h : timeline.Dropped) (hw : timeline.Waits time) :
    { timeline with now := time }.Dropped := by
  intro task ht
  exact (h task ht).wait (goes_of_next ((step?_eq_none_iff.mp hw.quiet).2 task ht)) time

theorem Dropped.starts (h : timeline.Dropped) (hl : timeline.Leads events last) :
    events.filterMap start? = [] := by
  induction hl with
  | refl => rfl
  | step hst _ ih =>
    obtain ⟨hdropped, hnone⟩ := h.step hst
    rw [filterMap_append, hnone, ih hdropped]
    rfl
  | wait hw _ ih => exact ih (h.wait hw)

/-- An action can start. -/
def Acts (timeline : Timeline) : Prop :=
  ∃ events last, timeline.Leads events last ∧ events.filterMap start? ≠ []

theorem Acts.step (h : after.Acts) (hst : timeline.Step after new) : timeline.Acts := by
  obtain ⟨events, last, hl, hs⟩ := h
  refine ⟨_, last, .step hst hl, ?_⟩
  rw [filterMap_append]
  exact fun hn ↦ hs (append_eq_nil_iff.mp hn).2

theorem Acts.of_deadline (deadline : Nat) (hd : timeline.deadline? = some deadline)
    (hq : timeline.now < deadline → timeline.step? = none)
    (h : ({ timeline with now := max timeline.now deadline } : Timeline).Acts) : timeline.Acts := by
  obtain ⟨events, last, hl, hs⟩ := h
  exact ⟨events, last, leads_of_deadline hd hq hl, hs⟩

section

variable (ht : timeline.limiter.tasks = [task])

include ht

theorem Acts.of_goes {moved : LimiterTask} (hg : timeline.Goes task (.act moved)) : timeline.Acts := by
  obtain ⟨timerFirst, hnext⟩ := LimiterTask.goes_iff.mp hg
  exact ⟨_, _, .step (.act timerFirst (ht ▸ mem_singleton_self task) hnext) (.refl _),
    cons_ne_nil _ _⟩

/-- A throttle acts for signals, when its task has rested. -/
theorem acts_of_throttle (hm : timeline.limiter.mode = .throttle) (hsuits : task.Suits .throttle)
    (hr : timeline.running = []) (hp : task.phase ≠ .acting) (hs : 0 < task.signals) :
    timeline.Acts := by
  cases hphase : task.phase with
  | acting => exact absurd hphase hp
  | settling => simp [LimiterTask.Suits, hphase] at hsuits
  | idle => exact .of_goes ht (.lead hphase hs hm)
  | resting time =>
    refine .of_deadline time ?_ (fun hlt ↦ ?_)
      (.of_goes ht (.trail hphase (Nat.le_max_right _ _) hs))
    · simp [deadline?, Limiter.deadline?, TaskPhase.deadline?, ht, hr, hphase]
    · simp [step?_eq_none_iff, ht, hr, Timeline.next, LimiterTask.next, hphase, hlt]

/-- Without an interval, the timer of a debounce runs out as soon as it is set for a signal. -/
theorem acts_of_debounce (hm : timeline.limiter.mode = .debounce) (hsuits : task.Suits .debounce)
    (hp : task.phase ≠ .acting) (hs : 0 < task.signals) (hi : timeline.limiter.interval = 0) :
    timeline.Acts := by
  have hset : timeline.Goes task (.move { task with
      phase := .settling (timeline.now + timeline.limiter.interval)
      signals := task.signals - 1 }) := by
    cases hphase : task.phase with
    | acting => exact absurd hphase hp
    | resting => simp [LimiterTask.Suits, hphase] at hsuits
    | idle => exact .gather hphase hs hm
    | settling => exact .regather hphase hs
  obtain ⟨timerFirst, hnext⟩ := LimiterTask.goes_iff.mp hset
  refine .step (.of_goes (Limiter.tasks_put_of_singleton ht hset.lightens.1) (.settle rfl ?_))
    (.move timerFirst (ht ▸ mem_singleton_self task) hnext)
  rw [hi]
  exact Nat.le_refl _

variable (hsuits : task.Suits timeline.limiter.mode)
  (hs : ¬ task.Spent timeline.limiter.mode timeline.limiter.interval timeline.now)

include hsuits hs

theorem acts_of_not_acting (hr : timeline.running = []) (hp : task.phase ≠ .acting) :
    timeline.Acts := by
  cases hm : timeline.limiter.mode with rw [hm] at hs hsuits
  | throttle => exact acts_of_throttle ht hm hsuits hr hp (Nat.pos_of_ne_zero hs)
  | debounce =>
    obtain hs | hs := not_and_or.mp hs
    · rw [not_or, Nat.not_lt, Nat.le_zero] at hs
      exact acts_of_debounce ht hm hsuits hp (Nat.pos_of_ne_zero hs.1) hs.2
    · push Not at hs
      obtain ⟨time, htime, hn⟩ := hs
      cases hphase : task.phase <;> simp_all [LimiterTask.Suits, TaskPhase.deadline?]
      exact .of_goes ht (.settle hphase hn)

/-- A task that is not spent can act, though it be cancelled: an action that runs ends first. -/
theorem acts (hr : timeline.Runs task) : timeline.Acts := by
  by_cases hp : task.phase = .acting
  · simp only [Runs, hp] at hr
    obtain ⟨endTime, hr⟩ := hr
    refine .of_deadline endTime ?_ (fun hlt ↦ ?_) ?_
    · simp [deadline?, Limiter.deadline?, TaskPhase.deadline?, ht, hr, hp]
    · simp [step?_eq_none_iff, ht, hr, Timeline.next, LimiterTask.next, hp, hlt]
    refine .step ?_ (.ended (hr ▸ mem_singleton_self _) (Nat.le_max_right _ _))
    rw [Timeline.ended, Limiter.ended_of_singleton ht rfl]
    refine acts_of_not_acting (Limiter.tasks_put_of_singleton ht (task.continues_ended _ _ _))
      ?_ ?_ (by simp [hr]) ?_ <;>
    cases hm : timeline.limiter.mode <;>
      simp_all [LimiterTask.Suits, LimiterTask.Spent, LimiterTask.ended, TaskPhase.deadline?,
        Limiter.put]
  · exact acts_of_not_acting ht hsuits hs (hr.running_eq hp) hp

end

end Timeline

namespace Chronicle

/-- What happens after a document was cancelled. -/
def cancelled (chronicle : Chronicle) (uri : Uri) : Chronicle where
  timeline := { chronicle.timeline with limiter := chronicle.timeline.limiter.cancel uri }

/-- Once a document is cancelled and nothing more is sent, no action starts exactly if the document's
task is spent. A throttle's has no signals left. A debounce's has a timer that has not run out yet, if
it waits for signals to stop at all, and no signals left unless there is an interval to wait for. -/
theorem starts_of_cancelled (mode : LimiterMode) (interval : Nat) (durations : Nat → Nat) (uri : Uri)
    (chronicle : Chronicle) (h : chronicle.Reached mode interval durations uri) :
    (∀ events last, (chronicle.cancelled uri).timeline.Leads events last →
        events.filterMap start? = []) ↔
      ∀ task ∈ chronicle.timeline.limiter.tasks,
        task.Spent mode interval chronicle.timeline.now := by
  obtain ⟨hmode, hinterval⟩ := h.limiter_eq
  obtain ⟨hnone, -⟩ | ⟨task, htask, ⟨huri, -⟩, hruns, hkeeps, -⟩ := h.paced.state
  · have hdropped : (chronicle.cancelled uri).timeline.Dropped := by
      simp [Timeline.Dropped, cancelled, Limiter.cancel, hnone]
    rw [hnone]
    exact iff_of_true (fun events last ↦ hdropped.starts) (forall_mem_nil _)
  have hsuits : task.Suits mode := by
    rw [Timeline.Keeps] at hkeeps
    cases hphase : task.phase <;> simp_all [LimiterTask.Suits]
  have hclosed : (chronicle.cancelled uri).timeline.limiter.tasks =
      [{ task with isClosed := true }] := by
    simp [cancelled, Limiter.cancel, htask, huri]
  rw [htask, forall_mem_singleton]
  subst hmode hinterval
  refine ⟨fun hstarts ↦ ?_, fun hspent events last ↦ Timeline.Dropped.starts ?_⟩
  · by_contra hspent
    obtain ⟨events, last, hleads, hne⟩ := Timeline.acts hclosed hsuits hspent hruns
    exact hne (hstarts events last hleads)
  · rw [Timeline.Dropped, hclosed, forall_mem_singleton]
    exact ⟨rfl, hsuits, hspent⟩

/-- A debounced signal is dropped if the document is cancelled before its timer has run out. -/
theorem starts_of_cancelled_settling :
    let chronicle := (ofLimiter .debounce 100 fun _ ↦ 0).performAll mainUri
      [.signal, .sleep 10]
    ∀ events last, (chronicle.cancelled mainUri).timeline.Leads events last →
        events.filterMap start? = [] := by
  intro chronicle
  have hspent : ∀ task ∈ chronicle.timeline.limiter.tasks,
      task.Spent .debounce 100 chronicle.timeline.now := by
    decide +kernel
  exact (starts_of_cancelled .debounce 100 (fun _ ↦ 0) _ chronicle
    (reached_performAll _ _ _ _ _)).mpr hspent

/-- The second of two signals is acted on after the document was cancelled. -/
theorem starts_of_cancelled_queued :
    let chronicle := (ofLimiter .throttle 100 fun _ ↦ 0).performAll mainUri
      [.signal, .signal, .sleep 10]
    ((chronicle.cancelled mainUri).sleep 200).starts = [100] := by
  decide +kernel

end Chronicle

end StoryScript
