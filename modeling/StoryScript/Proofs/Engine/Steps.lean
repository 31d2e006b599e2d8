import StoryScript.Proofs.Engine.Moves

/-!
The events of an engine's inputs. What its scheduler calls and publishes is passed on unchanged
(`Engine.filterMap_absorb`), and after an input the limiters only start jobs (`Engine.settle_invariant`);
the documents do not change any more by then.
-/

namespace StoryScript.Engine

open List

variable (e : Engine)

/-- Calls and publications of the scheduler are passed on in order; of the jobs that end, none of
these is left. -/
theorem filterMap_absorb {α : Type} {s : EngineEvent → Option α} {done : SchedulerEvent → Option α}
    (hc : ∀ call r, s (.called call r) = done (.called call r))
    (hp : ∀ u diagnostics v, s (.published u diagnostics v) = done (.published u diagnostics v))
    (ha : ∀ t a, s (.answered t a) = none)
    (hf : ∀ job o, done (.finished job o) = none)
    (e : Engine) (es : List SchedulerEvent) :
    (e.absorb es).2.filterMap s = es.filterMap done := by
  have hj : ∀ (e : Engine) (job : Nat) (o : JobOutcome),
      (e.jobFinished job o).2.filterMap s = [] := by
    intro e job o
    unfold jobFinished
    cases e.purposes.lookup job with
    | none => rfl
    | some p => cases p <;> simp [ha]
  induction es generalizing e with
  | nil => rfl
  | cons ev tl ih =>
    cases ev with
    | called call r => simp [absorb, filterMap_cons, hc, ih]
    | published u diagnostics v => simp [absorb, filterMap_cons, hp, ih]
    | finished job o =>
      simp [absorb, filterMap_append, hf, hj, ih]

theorem project_absorb (es : List SchedulerEvent) : (e.absorb es).1.project = e.project :=
  congrArg Bench.project (bench_absorb e es)

theorem scheduler_absorb (es : List SchedulerEvent) : (e.absorb es).1.scheduler = e.scheduler :=
  congrArg Bench.scheduler (bench_absorb e es)

theorem project_startJob (p : JobPurpose) (u : Uri) (f : Bool) :
    (e.startJob p u f).1.project = e.project :=
  project_absorb _ _

theorem scheduler_startJob (p : JobPurpose) (u : Uri) (f : Bool) :
    (e.startJob p u f).1.scheduler = (e.scheduler.start e.project u f).1 :=
  scheduler_absorb _ _

/-- What a task of a limiter can do: it ends, it moves on, or it acts, and then a job is started. -/
theorem limiterStep?_cases {e : Engine} {m : LimiterMode} {next : Engined}
    (h : e.limiterStep? m = some next) :
    (∃ t, (e.limiter m).next? e.now false = some (t, .stop) ∧
      next = (e.withLimiter ((e.limiter m).remove t.number) m, [])) ∨
    (∃ t moved, (e.limiter m).next? e.now false = some (t, .move moved) ∧
      next = (e.withLimiter ((e.limiter m).put moved) m, [])) ∨
    ∃ t acting, (e.limiter m).next? e.now false = some (t, .act acting) ∧
      next = (e.withLimiter ((e.limiter m).put acting) m).startJob
        (.limited m acting.number) acting.uri false := by
  unfold limiterStep? at h
  dsimp only at h
  split at h
  · cases h
  · cases h
  next t hn => exact .inl ⟨t, hn, (Option.some.inj h).symm⟩
  next t moved hn => exact .inr (Or.inl ⟨t, moved, hn, (Option.some.inj h).symm⟩)
  next t acting hn => exact .inr (Or.inr ⟨t, acting, hn, (Option.some.inj h).symm⟩)

/-- Induction over the steps of the limiters. -/
theorem settleWithin_induction {P : Engine → List EngineEvent → Prop}
    (hs : ∀ e es m n, P e es → e.limiterStep? m = some n → P n.1 (es ++ n.2))
    (ss : Nat) (e : Engine) (es : List EngineEvent) (h : P e es) :
    P (settleWithin ss e).1 (es ++ (settleWithin ss e).2) := by
  induction ss generalizing e es with
  | zero => simpa [settleWithin] using h
  | succ ss ih =>
    unfold settleWithin
    cases hn : e.limiterStep? .throttle <|> e.limiterStep? .debounce with
    | none => simpa using h
    | some n =>
      have hl : P n.1 (es ++ n.2) := by
        cases ht : e.limiterStep? .throttle with
        | some x =>
          rw [ht] at hn
          obtain rfl := Option.some.inj hn
          exact hs _ _ _ _ h ht
        | none =>
          rw [ht] at hn
          exact hs _ _ _ _ h hn
      have hr := ih _ _ hl
      rw [append_assoc] at hr
      exact hr

/-- What the steps of the limiters keep holds once they have done all they can do. -/
theorem settle_induction {P : Engine → Prop} (hs : ∀ e m n, P e → e.limiterStep? m = some n → P n.1)
    {e : Engine} (h : P e) : P e.settle.1 :=
  settleWithin_induction (P := fun n _ ↦ P n) (fun e _ m n h hn ↦ hs e m n h hn) _ e [] h

/-- Induction over what the limiters do after an input: they change, and they start jobs. -/
theorem settle_invariant {P : Engine → List EngineEvent → Prop} (hl : ∀ e es l m, P e es →
      P (e.withLimiter l m) es)
    (hs : ∀ e es p u, P e es → P (e.startJob p u false).1 (es ++ (e.startJob p u false).2))
    (e : Engine) (es : List EngineEvent) (h : P e es) :
    P e.settle.1 (es ++ e.settle.2) := by
  refine settleWithin_induction (fun e es m n h hn ↦ ?_) _ _ _ h
  obtain ⟨_, -, rfl⟩ | ⟨_, _, -, rfl⟩ | ⟨_, _, -, rfl⟩ := limiterStep?_cases hn
  · rw [append_nil]
    exact hl _ _ _ _ h
  · rw [append_nil]
    exact hl _ _ _ _ h
  · exact hs _ _ _ _ (hl _ _ _ _ h)

theorem project_withLimiter (l : Limiter) (m : LimiterMode) :
    (e.withLimiter l m).project = e.project :=
  congrArg Bench.project (bench_withLimiter e l m)

theorem scheduler_withLimiter (l : Limiter) (m : LimiterMode) :
    (e.withLimiter l m).scheduler = e.scheduler :=
  congrArg Bench.scheduler (bench_withLimiter e l m)

/-- The limiters leave the documents alone. -/
theorem project_settle : e.settle.1.project = e.project := by
  refine settle_invariant (P := fun n _ ↦ n.project = e.project) ?_ ?_ e [] rfl
  · intro n _ l m hn
    rw [project_withLimiter, hn]
  · intro n _ p u hn
    rw [project_startJob, hn]

end StoryScript.Engine
