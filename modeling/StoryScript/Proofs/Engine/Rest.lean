import StoryScript.Proofs.Engine.Outstanding
import StoryScript.Proofs.Limiter

/-!
An engine comes to rest once its calls are answered. The unrest of an engine is a bound on the
answers that it can still ask for: it counts the calls of its jobs, what the ends of limited actions
can set off, and the signals that the limiters have not acted on. Every answer makes it less
(`Engine.Owes.answer`), so in as many rounds of answers as there is unrest all calls are answered
(`Engine.Owes.converse`). After each input no limiter can do anything before the next one
(`Engine.quiet_step`).
-/

namespace StoryScript

open EngineEvent List

namespace Engine

variable {e : Engine} {m : LimiterMode} {i : EngineInput} {n : Engined} {es : List EngineEvent}
  {P : Engine → Prop}

/-! ### The limiters -/

/-- An engine without the purposes of a job. -/
def withoutJob (e : Engine) (job : Nat) : Engine :=
  { e with purposes := e.purposes.filter fun en ↦ en.1 ≠ job }

/-- What the end of a job can do besides answering a request: a limiter's action ends. -/
theorem jobFinished_cases (e : Engine) (job : Nat) (o : JobOutcome) :
    (e.jobFinished job o).1 = e ∨
    (e.jobFinished job o).1 = e.withoutJob job ∨
    ∃ m tk, (job, .limited m tk) ∈ e.purposes ∧
      (e.jobFinished job o).1 = (e.withoutJob job).withLimiter
        ((e.limiter m).ended tk e.now) m := by
  unfold jobFinished
  cases hl : e.purposes.lookup job with
  | none => exact .inl rfl
  | some p =>
    refine .inr ?_
    cases p with
    | limited m tk =>
      obtain ⟨x, l, hp, -⟩ := lookup_eq_some_iff.mp hl
      refine .inr ⟨m, tk, ?_, ?_⟩
      · rw [hp]
        exact mem_append_right _ mem_cons_self
      · cases m <;> rfl
    | requested t r => exact .inl rfl

structure Numbered (e : Engine) : Prop where
  throttle : e.throttle.Numbered
  debounce : e.debounce.Numbered

namespace Numbered

variable (h : e.Numbered)

include h

theorem limiter (m : LimiterMode) : (e.limiter m).Numbered := by
  cases m with
  | throttle => exact h.throttle
  | debounce => exact h.debounce

theorem withLimiter {l : Limiter} (hl : l.Numbered) (m : LimiterMode) :
    (e.withLimiter l m).Numbered := by
  cases m with
  | throttle => exact ⟨hl, h.debounce⟩
  | debounce => exact ⟨h.throttle, hl⟩

theorem jobFinished (job : Nat) (o : JobOutcome) : (e.jobFinished job o).1.Numbered := by
  have hw : (e.withoutJob job).Numbered := ⟨h.throttle, h.debounce⟩
  obtain hs | hs | ⟨m, t, -, he⟩ := e.jobFinished_cases job o
  · rwa [hs]
  · rwa [hs]
  · rw [he]
    exact hw.withLimiter ((h.limiter m).ended t e.now) m

theorem absorb (es : List SchedulerEvent) : (e.absorb es).1.Numbered := by
  induction es generalizing e with
  | nil => exact h
  | cons ev tl ih =>
    cases ev with
    | called call r => exact ih h
    | published u diagnostics v => exact ih h
    | finished job o => exact ih (h.jobFinished job o)

theorem startJob (p : JobPurpose) (u : Uri) (f : Bool) : (e.startJob p u f).1.Numbered := by
  refine absorb ?_ _
  exact ⟨h.throttle, h.debounce⟩

section

variable {m : LimiterMode} {n : Engined} (hn : e.limiterStep? m = some n)

include hn

/-- A step of a limiter takes weight off it, and three if a job is started. -/
theorem limiterStep_cases :
    ∃ lighter : Limiter, lighter.Numbered ∧
      (lighter.weight < (e.limiter m).weight ∧ n.1 = e.withLimiter lighter m ∨
        lighter.weight + 3 ≤ (e.limiter m).weight ∧ ∃ t u,
          n = (e.withLimiter lighter m).startJob (.limited m t) u false) := by
  have hl := h.limiter m
  obtain ⟨t, ht, rfl⟩ | ⟨t, moved, ht, rfl⟩ | ⟨t, acting, ht, rfl⟩ := limiterStep?_cases hn
  · obtain ⟨hm, -⟩ := Limiter.mem_of_next? ht
    have hr := hl.weight_remove hm
    have hpo := t.weight_pos
    exact ⟨_, hl.remove _, .inl ⟨by omega, rfl⟩⟩
  · obtain ⟨hm, hs, -⟩ := Limiter.mem_of_next? ht
    obtain ⟨hmo, hle⟩ := (LimiterTask.goes_iff.mpr ⟨false, hs⟩).lightens
    have hp := hl.weight_put hm hmo.1
    exact ⟨_, hl.put hm hmo, .inl ⟨by omega, rfl⟩⟩
  · obtain ⟨hm, hs, -⟩ := Limiter.mem_of_next? ht
    obtain ⟨ha, hle⟩ := (LimiterTask.goes_iff.mpr ⟨false, hs⟩).lightens
    have hp := hl.weight_put hm ha.1
    exact ⟨_, hl.put hm ha, .inr ⟨by omega, acting.number, acting.uri, rfl⟩⟩

theorem limiterStep : n.1.Numbered := by
  obtain ⟨lighter, hl, ⟨-, hm⟩ | ⟨-, t, u, rfl⟩⟩ := h.limiterStep_cases hn
  · rw [hm]
    exact h.withLimiter hl m
  · exact (h.withLimiter hl m).startJob _ _ _

end

theorem settle : e.settle.1.Numbered :=
  settle_induction (fun _ _ _ h hn ↦ h.limiterStep hn) h

theorem takes {l : List EngineEvent} {n : Engine} {es : List SchedulerEvent}
    (ht : e.Takes i l n es) : n.Numbered := by
  cases ht with
  | changed _ u _ _ _ => exact ⟨h.throttle.signal u, h.debounce.signal u⟩
  | closed _ u => exact ⟨h.throttle.cancel u, h.debounce.cancel u⟩
  | disposed => exact ⟨h.throttle.cancelAll, h.debounce.cancelAll⟩
  | _ => exact ⟨h.throttle, h.debounce⟩

theorem handle (i : EngineInput) : (e.handle i).1.Numbered := by
  obtain ⟨l, n, es, ht, heq⟩ := e.takes_handle i
  rw [heq]
  exact (h.takes ht).absorb es

theorem step (i : EngineInput) : (e.step i).1.Numbered :=
  (h.handle i).settle

end Numbered

theorem limiterWeight_withLimiter (e : Engine) (l : Limiter) (m : LimiterMode) :
    (e.withLimiter l m).limiterWeight + (e.limiter m).weight = e.limiterWeight + l.weight := by
  cases m with
  | throttle =>
    simp only [limiterWeight, withLimiter, Engine.limiter]
    omega
  | debounce =>
    simp only [limiterWeight, withLimiter, Engine.limiter]
    omega

theorem limiterWeight_ended_le (h : e.Numbered) (job : Nat) (m : LimiterMode) (t : Nat) :
    ((e.withoutJob job).withLimiter ((e.limiter m).ended t e.now) m).limiterWeight ≤
        e.limiterWeight + 1 := by
  have he := (h.limiter m).weight_ended_le t e.now
  have hw := (e.withoutJob job).limiterWeight_withLimiter ((e.limiter m).ended t e.now) m
  have hl : (e.withoutJob job).limiter m = e.limiter m := by
    cases m <;> rfl
  have hs : (e.withoutJob job).limiterWeight = e.limiterWeight := rfl
  rw [hl, hs] at hw
  omega

theorem limiterWeight_absorb_le (h : e.Numbered) (es : List SchedulerEvent) :
    (e.absorb es).1.limiterWeight ≤ e.limiterWeight + es.length := by
  have hj : ∀ {e : Engine}, e.Numbered → ∀ job o,
      (e.jobFinished job o).1.limiterWeight ≤ e.limiterWeight + 1 := by
    intro e h job o
    obtain hs | hs | ⟨m, t, -, he⟩ := e.jobFinished_cases job o
    · rw [hs]
      exact Nat.le_succ _
    · rw [hs]
      exact Nat.le_succ _
    · rw [he]
      exact limiterWeight_ended_le h job m t
  induction es generalizing e with
  | nil => exact Nat.le_refl _
  | cons ev tl ih =>
    rw [length_cons]
    cases ev with
    | called call r => exact Nat.le_succ_of_le (ih h)
    | published u diagnostics v => exact Nat.le_succ_of_le (ih h)
    | finished job o =>
      have hl : ((e.jobFinished job o).1.absorb tl).1.limiterWeight ≤ _ :=
        ih (h.jobFinished job o)
      have hf := hj h job o
      change ((e.jobFinished job o).1.absorb tl).1.limiterWeight ≤ _
      omega

theorem length_start_le (s : Scheduler) (p : Project) (u : Uri) (f : Bool) :
    (s.start p u f).2.length ≤ 1 := by
  obtain hno | ⟨_, he⟩ | ⟨_, -, hc⟩ := s.events_start p u f
  · rw [hno]
    exact Nat.zero_le 1
  · rw [he]
    exact Nat.le_refl 1
  · rw [hc]
    exact Nat.le_refl 1

theorem limiterWeight_startJob_le (h : e.Numbered) (p : JobPurpose) (u : Uri) (f : Bool) :
    (e.startJob p u f).1.limiterWeight ≤ e.limiterWeight + 1 := by
  have hnu : (e.withJob p u f).Numbered := ⟨h.throttle, h.debounce⟩
  have ha := limiterWeight_absorb_le hnu (e.scheduler.start e.project u f).2
  have ho := length_start_le e.scheduler e.project u f
  exact Nat.le_trans ha (Nat.add_le_add_left ho _)

/-- Whatever a limiter does brings it closer to rest. -/
theorem limiterWeight_limiterStep_lt (h : e.Numbered) (hn : e.limiterStep? m = some n) :
    n.1.limiterWeight < e.limiterWeight := by
  obtain ⟨lighter, hli, ⟨hl, hm⟩ | ⟨hl, t, u, rfl⟩⟩ := h.limiterStep_cases hn
  · have hw := e.limiterWeight_withLimiter lighter m
    rw [hm]
    omega
  · have hw := e.limiterWeight_withLimiter lighter m
    -- A job that ends at once ends the action, which gives back one.
    have hs := limiterWeight_startJob_le (h.withLimiter hli m) (.limited m t) u false
    omega

/-- No limiter can do anything now. -/
def Quiet (e : Engine) : Prop :=
  ∀ m, e.limiterStep? m = none

theorem limiterStep?_of_weight_eq_zero (h : (e.limiter m).weight = 0) :
    e.limiterStep? m = none := by
  cases ht : (e.limiter m).tasks with
  | nil =>
    have hn : (e.limiter m).next? e.now false = none := by
      rw [Limiter.next?, ht]
      rfl
    rw [limiterStep?, hn]
  | cons t r =>
    have hp := t.weight_pos
    rw [Limiter.weight_eq_sum, ht, map_cons, sum_cons] at h
    omega

theorem quiet_settleWithin (h : e.Numbered) {ss : Nat}
    (hs : e.limiterWeight ≤ ss) : (settleWithin ss e).1.Quiet := by
  induction ss generalizing e with
  | zero =>
    rw [limiterWeight] at hs
    intro m
    refine limiterStep?_of_weight_eq_zero ?_
    cases m with
    | throttle => exact (Nat.add_eq_zero_iff.mp (Nat.le_zero.mp hs)).1
    | debounce => exact (Nat.add_eq_zero_iff.mp (Nat.le_zero.mp hs)).2
  | succ ss ih =>
    have hl : ∀ {m n}, e.limiterStep? m = some n → (settleWithin ss n.1).1.Quiet := fun hn ↦
      ih (h.limiterStep hn) (by have := limiterWeight_limiterStep_lt h hn; omega)
    unfold settleWithin
    cases ht : e.limiterStep? .throttle with
    | some n => exact hl ht
    | none =>
      cases hd : e.limiterStep? .debounce with
      | some n => exact hl hd
      | none =>
        intro m
        cases m with
        | throttle => exact ht
        | debounce => exact hd

/-- After an input, no limiter can do anything before the next one. -/
theorem quiet_step (h : e.Numbered) (i : EngineInput) : (e.step i).1.Quiet :=
  quiet_settleWithin (h.handle i) (Nat.le_refl _)

theorem settle_of_quiet (h : e.Quiet) : e.settle = (e, []) := by
  rw [settle]
  cases e.limiterWeight with
  | zero => rfl
  | succ ss => rw [settleWithin, h .throttle, h .debounce]; rfl

/-! ### Unrest -/

def isLimited (en : Nat × JobPurpose) : Bool :=
  match en.2 with
  | .limited _ _ => true
  | .requested _ _ => false

/-- A bound on the answers that an engine can still ask for. -/
def unrest (e : Engine) : Nat :=
  e.scheduler.effort + e.purposes.countP isLimited + e.limiterWeight

/-- A bound on the rounds of answers that an engine can ask for, in terms of what it holds. -/
def rounds (e : Engine) : Nat :=
  2 * e.scheduler.jobs.length + e.purposes.length + e.limiterWeight + 1

theorem unrest_lt_rounds (e : Engine) : e.unrest < e.rounds := by
  have he : ∀ jobs : List Job, (jobs.map Job.effort).sum ≤ 2 * jobs.length := by
    intro jobs
    induction jobs with
    | nil => exact Nat.le_refl 0
    | cons job r ih =>
      have hj : job.effort ≤ 2 := by
        unfold Job.effort
        split <;> omega
      rw [map_cons, sum_cons, length_cons]
      omega
  have hjo := he e.scheduler.compiles
  have hf : e.scheduler.compiles.length ≤ e.scheduler.jobs.length := length_filter_le _ _
  have hl : e.purposes.countP isLimited ≤ e.purposes.length := countP_le_length
  unfold unrest rounds Scheduler.effort
  omega

theorem unrest_jobFinished_le (h : e.Numbered) (job : Nat) (o : JobOutcome) :
    (e.jobFinished job o).1.unrest ≤ e.unrest := by
  have hsc : (e.jobFinished job o).1.scheduler = e.scheduler :=
    congrArg Bench.scheduler (bench_jobFinished e job o)
  have hk : (e.withoutJob job).purposes.countP isLimited ≤
      e.purposes.countP isLimited := filter_sublist.countP_le
  unfold unrest
  rw [hsc]
  obtain hs | hs | ⟨m, t, hm, he⟩ := e.jobFinished_cases job o
  · exact Nat.le_of_eq (by rw [hs])
  · rw [hs]
    exact Nat.add_le_add_right (Nat.add_le_add_left hk _) _
  · -- The end of the action can set off one thing, and was counted for this.
    have hl : (e.withoutJob job).purposes.countP isLimited + 1 ≤ e.purposes.countP isLimited := by
      rw [e.purposes.countP_eq_countP_filter_add isLimited fun en ↦ en.1 ≠ job]
      refine Nat.add_le_add_left (countP_pos_iff.mpr ⟨_, mem_filter.mpr ⟨hm, ?_⟩, rfl⟩) _
      simp
    have hw := limiterWeight_ended_le h job m t
    have hp : (e.jobFinished job o).1.purposes = (e.withoutJob job).purposes := by
      rw [he]
      cases m <;> rfl
    rw [hp, he]
    omega

theorem unrest_absorb_le (h : e.Numbered) (es : List SchedulerEvent) :
    (e.absorb es).1.unrest ≤ e.unrest := by
  induction es generalizing e with
  | nil => exact Nat.le_refl _
  | cons ev tl ih =>
    cases ev with
    | called call r => exact ih h
    | published u diagnostics v => exact ih h
    | finished job o =>
      exact Nat.le_trans (ih (h.jobFinished job o)) (unrest_jobFinished_le h job o)

theorem unrest_withJob_le (hs : e.bench.Sound) (p : JobPurpose) (u : Uri)
    (f : Bool) : (e.withJob p u f).unrest ≤ e.unrest + 3 := by
  have he : (e.withJob p u f).scheduler.effort ≤ e.scheduler.effort + 2 :=
    (Scheduler.asks_start e.project hs.jobs u f).effort
  have hp : (e.withJob p u f).purposes.countP isLimited ≤ e.purposes.countP isLimited + 1 := by
    simp only [withJob, countP_cons]
    split_ifs <;> omega
  have hw : (e.withJob p u f).limiterWeight = e.limiterWeight := rfl
  unfold unrest
  omega

theorem unrest_startJob_le (h : e.Numbered) (hs : e.bench.Sound)
    (p : JobPurpose) (u : Uri) (f : Bool) :
    (e.startJob p u f).1.unrest ≤ e.unrest + 3 := by
  have hnu : (e.withJob p u f).Numbered := ⟨h.throttle, h.debounce⟩
  exact Nat.le_trans (unrest_absorb_le hnu _) (unrest_withJob_le hs p u f)

theorem unrest_withLimiter (e : Engine) (l : Limiter) (m : LimiterMode) :
    (e.withLimiter l m).unrest + (e.limiter m).weight = e.unrest + l.weight := by
  have hw := e.limiterWeight_withLimiter l m
  have hp : (e.withLimiter l m).purposes = e.purposes := by
    cases m <;> rfl
  unfold unrest
  rw [scheduler_withLimiter, hp]
  omega

theorem unrest_limiterStep_le (h : e.Numbered) (hs : e.bench.Sound)
    (hn : e.limiterStep? m = some n) : n.1.unrest ≤ e.unrest := by
  obtain ⟨lighter, hli, ⟨hl, hm⟩ | ⟨hl, t, u, rfl⟩⟩ := h.limiterStep_cases hn
  · have hw := e.unrest_withLimiter lighter m
    rw [hm]
    omega
  · have hw := e.unrest_withLimiter lighter m
    have hk : (e.withLimiter lighter m).bench.Sound := by
      rw [bench_withLimiter]
      exact hs
    -- What the action takes off the weight pays for the job and for its end.
    have hst := unrest_startJob_le (h.withLimiter hli m) hk (.limited m t) u false
    omega

theorem unrest_settle_le (h : e.Numbered) (hs : e.bench.Sound) : e.settle.1.unrest ≤ e.unrest := by
  refine (settle_induction (P := fun n ↦ n.Numbered ∧ n.bench.Sound ∧
    n.unrest ≤ e.unrest) ?_ ⟨h, hs, Nat.le_refl _⟩).2.2
  intro n m l ⟨h, hs, hle⟩ hl
  exact ⟨h.limiterStep hl, hs.moves (moves_limiterStep hl),
    Nat.le_trans (unrest_limiterStep_le h hs hl) hle⟩

/-- The most that an input adds to the unrest. The signals of a change add the most. -/
def inputUnrest : EngineInput → Nat
  | .request _ _ => 14
  | _ => 0

theorem Takes.unrest_le (h : e.Numbered) (hso : e.bench.Sound)
    {l : List EngineEvent} {n : Engine} {es : List SchedulerEvent}
    (ht : e.Takes i l n es)
    (hi : ∀ call r, i ≠ .answer call r) :
    n.unrest ≤ e.unrest + inputUnrest i := by
  -- What goes on at the same weight adds nothing.
  have hs (he : n.scheduler.effort ≤ e.scheduler.effort) (hp : n.purposes = e.purposes)
      (hw : n.limiterWeight = e.limiterWeight) :
      n.unrest ≤ e.unrest + inputUnrest i := by
    rw [unrest, hp, hw, unrest]
    omega
  cases ht with
  | opened t u v tx _ =>
    have ho : (e.opening u v tx).bench.Sound := hso.move (.opened e.bench u v tx)
    exact Nat.le_trans (unrest_withJob_le ho _ u false) (Nat.le_add_right _ 11)
  | started t req u f =>
    exact Nat.le_trans (unrest_withJob_le hso _ u f) (Nat.le_add_right _ 11)
  | changed t u v cs _ =>
    have hth := h.throttle.weight_signal_le u
    have hd := h.debounce.weight_signal_le u
    simp only [unrest, limiterWeight, withStore, inputUnrest]
    omega
  | closed t u =>
    exact hs (e.scheduler.asks_forget u).effort rfl
      (congrArg₂ (· + ·) (e.throttle.weight_cancel u) (e.debounce.weight_cancel u))
  | deleted u _ => exact hs (e.scheduler.asks_forget u).effort rfl rfl
  | disposed =>
    exact hs e.scheduler.asks_clear.effort rfl
      (congrArg₂ (· + ·) e.throttle.weight_cancelAll e.debounce.weight_cancelAll)
  | answered call r => exact absurd rfl (hi call r)
  | refused _ _ _ _ _ => exact Nat.le_add_right _ _
  | found _ => exact Nat.le_refl _
  | unlisted _ => exact Nat.le_refl _
  | elapsed _ => exact Nat.le_refl _

theorem unrest_step_le (h : e.Numbered) (hs : e.bench.Sound) (hi : ∀ call r, i ≠ .answer call r) :
    (e.step i).1.unrest ≤ e.unrest + inputUnrest i := by
  have hse := unrest_settle_le (h.handle i) (hs.moves (e.moves_handle i))
  refine Nat.le_trans hse ?_
  obtain ⟨l, n, es, ht, heq⟩ := e.takes_handle i
  rw [heq]
  exact Nat.le_trans (unrest_absorb_le (h.takes ht) es) (ht.unrest_le h hs hi)

/-! ### Answers -/

/-- The calls that an engine waits for. -/
structure Owes (e : Engine) (calls : List Nat) : Prop where
  sound : e.bench.Sound
  outstanding : e.scheduler.outstanding.Perm calls

/-- No more answers are waited for than can be asked for. -/
theorem Owes.length_le (h : e.Owes (callNumbers es)) :
    (es.filterMap called?).length ≤ e.unrest := by
  have hl := h.outstanding.length_eq
  rw [callNumbers, length_map] at hl
  have ho := e.scheduler.length_outstanding_le
  unfold unrest
  omega

/-- An answer takes a call off those that an engine waits for, and brings the engine closer to rest
even if it makes other calls. -/
theorem Owes.answer {call : Nat} {cs : List Nat} (h : e.Owes (call :: cs))
    (hnu : e.Numbered) (r : Except Failure Program) :
    (e.step (.answer call r)).1.Owes (cs ++ callNumbers (e.step (.answer call r)).2) ∧
      (e.step (.answer call r)).1.unrest < e.unrest := by
  have hm : call ∈ e.scheduler.outstanding := h.outstanding.mem_iff.mpr mem_cons_self
  obtain ⟨job, hjo, hf⟩ := Scheduler.exists_of_mem_outstanding _ hm
  have hc : job.call? = some call := by simpa using find?_some hf
  have hj : e.scheduler.compiles.Perm (job :: e.scheduler.compiles.filter fun o ↦
      o.number ≠ job.number) := perm_cons_filter_of_nodup h.sound.jobs.distinct hjo
  have ha := adds_answer h.sound hf r
  constructor
  · have hr : (call :: (e.scheduler.compiles.filter fun o ↦
        o.number ≠ job.number).filterMap Job.call?).Perm (call :: cs) := by
      have hp := hj.filterMap Job.call?
      rw [filterMap_cons_some hc] at hp
      exact hp.symm.trans h.outstanding
    exact ⟨ha.settle.sound, ha.settle.outstanding.trans (((perm_cons call).mp hr).append_right _)⟩
  · have has := (e.scheduler.asks_answer e.project hf r).effort
    have hsu := (hj.map Job.effort).sum_eq
    rw [map_cons, sum_cons] at hsu
    have hpo : 0 < job.effort := Scheduler.effort_pos (by rw [hc]; rfl)
    let a : Engine := { e with scheduler := (e.scheduler.answer e.project call r).1 }
    have han : a.unrest < e.unrest := by
      have he : a.scheduler.effort < e.scheduler.effort := by
        unfold Scheduler.effort at has ⊢
        dsimp only [a]
        omega
      have hw : a.limiterWeight = e.limiterWeight := rfl
      have hpu : a.purposes = e.purposes := rfl
      unfold unrest
      rw [hw, hpu]
      omega
    have hl : a.Numbered := ⟨hnu.throttle, hnu.debounce⟩
    have hab : (e.handle (.answer call r)).1.unrest ≤ a.unrest := unrest_absorb_le hl _
    have hs := unrest_settle_le (hnu.handle (.answer call r)) ha.sound
    exact Nat.lt_of_le_of_lt (Nat.le_trans hs hab) han

/-- Answers to calls, one after the other. -/
def serve (e : Engine) (as : Uri → Except Failure Program) :
    List (Nat × Uri) → Engined
  | [] => (e, [])
  | (call, r) :: tl =>
    let (e, es) := e.step (.answer call (as r))
    let (e, l) := e.serve as tl
    (e, es ++ l)

theorem serve_cons (e : Engine) (as : Uri → Except Failure Program) (call : Nat)
    (r : Uri) (tl : List (Nat × Uri)) :
    e.serve as ((call, r) :: tl) =
      (((e.step (.answer call (as r))).1.serve as tl).1, (e.step (.answer call (as r))).2 ++
          ((e.step (.answer call (as r))).1.serve as tl).2) := rfl

theorem Owes.serve {cs : List (Nat × Uri)} {os : List Nat}
    (h : e.Owes (cs.map Prod.fst ++ os)) (hnu : e.Numbered)
    (as : Uri → Except Failure Program) :
    (e.serve as cs).1.Owes (os ++ callNumbers (e.serve as cs).2) ∧
      (e.serve as cs).1.unrest + cs.length ≤ e.unrest := by
  induction cs generalizing e os with
  | nil => exact ⟨by simpa [Engine.serve, callNumbers] using h, Nat.le_refl _⟩
  | cons en tl ih =>
    obtain ⟨call, r⟩ := en
    replace h : e.Owes (call :: (tl.map Prod.fst ++ os)) := h
    obtain ⟨ho, hle⟩ := h.answer hnu (as r)
    rw [append_assoc] at ho
    obtain ⟨hs, hl⟩ := ih ho (hnu.step _)
    rw [serve_cons, callNumbers_append, ← append_assoc, length_cons]
    exact ⟨hs, by dsimp only; omega⟩

theorem serve_induction (ha : ∀ e call r, P e → P (e.step (.answer call r)).1)
    (as : Uri → Except Failure Program) (cs : List (Nat × Uri)) (h : P e) :
    P (e.serve as cs).1 := by
  induction cs generalizing e with
  | nil => exact h
  | cons en tl ih => exact ih (ha e en.1 (as en.2) h)

/-- Answers to the calls that an engine makes, round after round: each round answers the calls of
the one before. -/
def converse (as : Uri → Except Failure Program) : Nat → Engine → List EngineEvent → Engined
  | 0, e, es => (e, es)
  | rs + 1, e, es =>
    let (e, n) := e.serve as (es.filterMap called?)
    let (e, l) := if n.isEmpty then (e, []) else converse as rs e n
    (e, es ++ l)

theorem converse_succ (as : Uri → Except Failure Program) (rs : Nat) (e : Engine)
    (es : List EngineEvent) :
    converse as (rs + 1) e es =
      let served := e.serve as (es.filterMap called?)
      if served.2 = [] then (served.1, es)
      else
        ((converse as rs served.1 served.2).1, es ++ (converse as rs served.1 served.2).2) := by
  rw [converse]
  dsimp only
  cases (e.serve as (es.filterMap called?)).2 with
  | nil => exact Prod.ext rfl (append_nil es)
  | cons ev r => rfl

/-- Other events than calls are only passed on. -/
theorem converse_cons {ev : EngineEvent} (he : ev.called? = none)
    (as : Uri → Except Failure Program) (rs : Nat) (e : Engine)
    (es : List EngineEvent) :
    converse as rs e (ev :: es) = ((converse as rs e es).1, ev :: (converse as rs e es).2) := by
  cases rs with
  | zero => rfl
  | succ rs =>
    rw [converse_succ, converse_succ, filterMap_cons_none he]
    dsimp only
    split_ifs <;> rfl

theorem converse_induction (ha : ∀ e call r, P e → P (e.step (.answer call r)).1)
    (as : Uri → Except Failure Program) (rs : Nat) (es : List EngineEvent) (h : P e) :
    P (converse as rs e es).1 := by
  induction rs generalizing e es with
  | zero => exact h
  | succ rs ih =>
    have hs := serve_induction ha as (es.filterMap called?) h
    rw [converse_succ]
    dsimp only
    split_ifs
    · exact hs
    · exact ih _ hs

/-- In as many rounds as there is unrest, all calls get their answers. -/
theorem Owes.converse (h : e.Owes (callNumbers es)) (hnu : e.Numbered)
    (as : Uri → Except Failure Program) {rs : Nat} (hro : e.unrest < rs) :
    (Engine.converse as rs e es).1.Owes [] ∧ (Engine.converse as rs e es).1.unrest ≤ e.unrest := by
  induction rs generalizing e es with
  | zero => exact absurd hro (Nat.not_lt_zero _)
  | succ rs ih =>
    let cs := es.filterMap called?
    have hc : e.Owes (cs.map Prod.fst ++ []) := by
      rw [append_nil]
      exact h
    obtain ⟨ho, hu⟩ := hc.serve hnu as
    have hs : (e.serve as cs).1.Numbered := serve_induction (fun _ _ _ h ↦ h.step _) as cs hnu
    rw [converse_succ]
    dsimp only
    split_ifs with hn
    · rw [hn] at ho
      exact ⟨ho, Nat.le_trans (Nat.le_add_right _ _) hu⟩
    · -- A round with no calls has no answers, so there was at least one call.
      have hso : 0 < cs.length := by
        refine length_pos_iff.mpr fun hno ↦ hn ?_
        rw [show es.filterMap called? = [] from hno]
        rfl
      obtain ⟨hr, hl⟩ := ih ho hs (by omega)
      exact ⟨hr, Nat.le_trans hl (Nat.le_trans (Nat.le_add_right _ _) hu)⟩

end Engine

end StoryScript
