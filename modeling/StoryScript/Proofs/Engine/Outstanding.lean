import Mathlib.Algebra.Ring.Nat
import StoryScript.Proofs.Engine.Calls
import StoryScript.Proofs.Engine.Waiters

/-!
The calls that an engine waits for. Each call that it makes is one more of these
(`Engine.adds_step`), and each answer takes one off (`Engine.adds_answer`). An answer leads to at
most one other call, and the jobs have less to do after it (`Scheduler.asks_answer`).
-/

namespace StoryScript

open List Scheduler SchedulerEvent

/-- The most answers that a job can still ask for. -/
def Job.effort (job : Job) : Nat :=
  match job.phase with
  | .joined _ => 0
  | .compilingMain _ => 2
  | .compilingAlone _ _ => 1

namespace Scheduler

/-- The calls that no answer has come to. -/
def outstanding (s : Scheduler) : List Nat :=
  s.compiles.filterMap Job.call?

/-- The most answers that the jobs can still ask for. -/
def effort (s : Scheduler) : Nat :=
  (s.compiles.map Job.effort).sum

/-- What a scheduler has come to from jobs that go on: at most one more job calls the compiler, and
takes no more than some effort. -/
inductive Asks (going : List Job) (b : Nat) (n : Scheduled) : Prop
  | nothing (hcomps : n.1.compiles = going)
      (hevents : n.2.filterMap called? = [])
  | once (job : Job) (call : Nat) (root : Uri) (hcall : job.call? = some call)
      (heffort : job.effort ≤ b) (hcomps : n.1.compiles = going ++ [job])
      (hevents : n.2.filterMap called? = [(call, root)])

namespace Asks

variable {going : List Job} {b : Nat} {n : Scheduled}

theorem outstanding (h : Asks going b n) :
    n.1.outstanding = going.filterMap Job.call? ++
      (n.2.filterMap SchedulerEvent.called?).map Prod.fst := by
  cases h with
  | nothing hc he =>
    rw [Scheduler.outstanding, hc, he]
    exact (append_nil _).symm
  | once job call r hca hef hc he =>
    rw [Scheduler.outstanding, hc, he, filterMap_append]
    simp [hca]

theorem effort (h : Asks going b n) : n.1.effort ≤ (going.map Job.effort).sum + b := by
  cases h with
  | nothing hc hev =>
    rw [Scheduler.effort, hc]
    exact Nat.le_add_right _ _
  | once job call r hca he hc hev =>
    rw [Scheduler.effort, hc, map_append, sum_append, map_singleton, sum_singleton]
    exact Nat.add_le_add_left he _

end Asks

variable (s : Scheduler) (p : Project)

theorem asks_forget (u : Uri) : Asks s.compiles 0 (s.forget u) :=
  .nothing (compiles_deliver _ _) (called?_deliver _ _)

theorem asks_clear : Asks s.compiles 0 s.clear :=
  .nothing (compiles_deliver _ _) (called?_deliver _ _)

variable {s} in
theorem asks_start (h : s.Orderly) (u : Uri) (f : Bool) : Asks s.compiles 2 (s.start p u f) := by
  obtain ⟨-, hne⟩ | ⟨v, -, -, -, ⟨-, hc, hn⟩ | ⟨-, phase, r, hp, -, hc, hca⟩⟩ := s.start_cases p u f
  · rw [hne]
    exact .nothing rfl rfl
  · refine .nothing hc ?_
    obtain hn | ⟨o, he⟩ := hn
    · rw [hn]
      rfl
    · rw [he]
      rfl
  · have ho : (s.compiles.filter fun job ↦ job.number ≠ s.started) =
        s.compiles :=
      filter_eq_self.mpr fun job hj ↦ by simpa using Nat.ne_of_lt (h.numbered job hj)
    rw [ho] at hc
    refine .once _ s.calls r ?_ ?_ hc (by rw [hca]; rfl)
    · obtain rfl | rfl := hp <;> rfl
    · obtain rfl | rfl := hp
      · exact Nat.le_refl 2
      · exact Nat.le_succ 1

/-- An answer ends a job, or a job that waited for the main script goes on with less to do. -/
theorem asks_answer {call : Nat} {job : Job}
    (hj : s.jobs.find? (fun job ↦ job.call? = some call) = some job)
    (r : Except Failure Program) :
    Asks (s.compiles.filter fun o ↦ o.number ≠ job.number)
      (job.effort - 1) (s.answer p call r) := by
  cases continued_answer p hj r with
  | failed _ hco _ hc => exact .nothing hco hc
  | ended _ _ _ _ hco _ hc => exact .nothing hco hc
  | wentOn pr hp _ _ _ hco _ hc =>
    refine .once _ s.calls job.uri rfl ?_ hco hc
    rw [Job.effort.eq_def job, hp]
    exact Nat.le_refl 1

/-- A call that is outstanding has a job that waits for it. -/
theorem exists_of_mem_outstanding {call : Nat} (h : call ∈ s.outstanding) :
    ∃ job ∈ s.compiles, s.jobs.find? (fun job ↦ job.call? = some call) = some job := by
  obtain ⟨waiting, hw, hc⟩ := mem_filterMap.mp h
  cases hf : s.jobs.find? fun job ↦ job.call? = some call with
  | none =>
    have hn := find?_eq_none.mp hf waiting (mem_of_mem_filter hw)
    exact absurd hc (by simpa using hn)
  | some job =>
    have hfo : job.call? = some call := by simpa using find?_some hf
    exact ⟨job, mem_filter.mpr ⟨mem_of_find?_eq_some hf, by rw [hfo]; rfl⟩, rfl⟩

theorem effort_pos {job : Job} (h : job.call?.isSome = true) : 0 < job.effort := by
  obtain ⟨nb, u, phase⟩ := job
  cases phase with
  | joined t => cases h
  | compilingMain call => exact Nat.succ_pos _
  | compilingAlone call m => exact Nat.succ_pos _

theorem length_outstanding_le : s.outstanding.length ≤ s.effort := by
  have hj : ∀ jobs : List Job, (jobs.filterMap Job.call?).length ≤ (jobs.map Job.effort).sum := by
    intro jobs
    induction jobs with
    | nil => exact Nat.le_refl 0
    | cons job r ih =>
      rw [map_cons, sum_cons]
      cases hc : job.call? with
      | none =>
        rw [filterMap_cons_none hc]
        omega
      | some call =>
        have hp : 0 < job.effort := effort_pos (by rw [hc]; rfl)
        rw [filterMap_cons_some hc, length_cons]
        omega
  exact hj s.compiles

end Scheduler

/-- The numbers of the calls that are made. -/
def callNumbers (es : List EngineEvent) : List Nat :=
  (es.filterMap EngineEvent.called?).map Prod.fst

theorem callNumbers_append (x l : List EngineEvent) :
    callNumbers (x ++ l) = callNumbers x ++ callNumbers l := by
  rw [callNumbers, filterMap_append, map_append]
  rfl

theorem Bench.Sound.moves {bench n : Bench} (h : bench.Sound) (hmo : Moves bench n) :
    n.Sound := by
  induction hmo with
  | refl => exact h
  | tail _ hm ih => exact ih.move hm

namespace Engine

variable {i : EngineInput}

/-- What an engine has come to from some outstanding calls: those that it made in the meantime are
outstanding too. -/
structure Adds (kept : List Nat) (n : Engined) : Prop where
  sound : n.1.bench.Sound
  outstanding : n.1.scheduler.outstanding.Perm (kept ++ callNumbers n.2)

variable {e : Engine}

theorem adds_absorb {n : Engine} {es : List SchedulerEvent} {going : List Job} {b : Nat}
    (hs : n.bench.Sound)
    (h : Scheduler.Asks going b (n.scheduler, es)) :
    Adds (going.filterMap Job.call?) (n.absorb es) := by
  have hn : callNumbers (n.absorb es).2 = (es.filterMap called?).map Prod.fst := by
    rw [callNumbers, called?_absorb]
  constructor
  · rw [bench_absorb]
    exact hs
  · rw [scheduler_absorb, hn]
    exact .of_eq h.outstanding

theorem adds_startJob (h : e.bench.Sound) (pu : JobPurpose) (u : Uri) (f : Bool) :
    Adds e.scheduler.outstanding (e.startJob pu u f) :=
  adds_absorb (h.move (.started e.bench u f)) (asks_start e.project h.jobs u f)

/-- The limiters only start jobs. -/
theorem Adds.settle {k : List Nat} {n : Engined} (h : Adds k n) :
    Adds k (n.1.settle.1, n.2 ++ n.1.settle.2) := by
  refine settle_invariant (P := fun n es ↦ Adds k (n, es)) ?_ ?_ n.1 n.2 h
  · intro n es l m h
    constructor
    · rw [bench_withLimiter]
      exact h.sound
    · rw [scheduler_withLimiter]
      exact h.outstanding
  · intro n es pu u h
    have hs := adds_startJob h.sound pu u false
    refine ⟨hs.sound, ?_⟩
    rw [callNumbers_append, ← append_assoc]
    exact hs.outstanding.trans (h.outstanding.append_right _)

theorem Takes.asks (h : e.bench.Sound) {l : List EngineEvent} {n : Engine}
    {es : List SchedulerEvent} (ht : e.Takes i l n es)
    (hi : ∀ call r, i ≠ .answer call r) :
    ∃ b, Scheduler.Asks e.scheduler.compiles b (n.scheduler, es) := by
  cases ht with
  | answered call r => exact absurd rfl (hi call r)
  | opened _ u _ _ _ => exact ⟨2, asks_start _ h.jobs u false⟩
  | started _ _ u f => exact ⟨2, asks_start _ h.jobs u f⟩
  | closed _ u => exact ⟨0, e.scheduler.asks_forget u⟩
  | deleted u _ => exact ⟨0, e.scheduler.asks_forget u⟩
  | disposed => exact ⟨0, e.scheduler.asks_clear⟩
  | changed _ _ _ _ _ => exact ⟨0, .nothing rfl rfl⟩
  | refused _ _ _ _ _ => exact ⟨0, .nothing rfl rfl⟩
  | found _ => exact ⟨0, .nothing rfl rfl⟩
  | unlisted _ => exact ⟨0, .nothing rfl rfl⟩
  | elapsed _ => exact ⟨0, .nothing rfl rfl⟩

/-- Whatever else happens, no call is answered by it. -/
theorem adds_handle (h : e.bench.Sound) (hi : ∀ call r, i ≠ .answer call r) :
    Adds e.scheduler.outstanding (e.handle i) := by
  obtain ⟨l, n, es, ht, heq⟩ := e.takes_handle i
  obtain ⟨_, has⟩ := ht.asks h hi
  have ha := adds_absorb (h.moves ht.moves) has
  have hf : callNumbers l = [] := by rw [callNumbers, ht.callsKnown.1, map_nil]
  rw [heq]
  refine ⟨ha.sound, ?_⟩
  rw [callNumbers_append, hf, nil_append]
  exact ha.outstanding

/-- An answer takes a call off those that are outstanding. -/
theorem adds_answer (h : e.bench.Sound) {call : Nat} {job : Job}
    (hf : e.scheduler.jobs.find? (fun job ↦ job.call? = some call) = some job)
    (r : Except Failure Program) :
    Adds ((e.scheduler.compiles.filter fun o ↦
      o.number ≠ job.number).filterMap Job.call?) (e.handle (.answer call r)) :=
  adds_absorb (h.move (.answered e.bench call r)) (e.scheduler.asks_answer e.project hf r)

theorem adds_step (h : e.bench.Sound) (hi : ∀ call r, i ≠ .answer call r) :
    Adds e.scheduler.outstanding (e.step i) :=
  (adds_handle h hi).settle

end Engine

end StoryScript
