import StoryScript.Proofs.Cache.Run
import StoryScript.Proofs.Engine.Moves
import StoryScript.Proofs.Scheduler
import StoryScript.Proofs.Story

/-!
Nobody waits in vain. `Bench.Sound` ties the cache to the open documents and to the jobs that are
compiling: a ticket waits for a document only while that is being compiled, and whatever is being
compiled has a job that will settle it or give it up. Every move keeps this, but not every step of
threads: a compile may be planned of a document that was closed after it was read, and nothing ends
that (`Threads.waited_for_has_compile`).
-/

namespace StoryScript

open Cache List

/-- A job that got to compile a document, and has neither settled it nor given it up. The program of
the main script, if the job has completed that, was none of the document's. -/
structure Job.Compiles (job : Job) (uri : Uri) : Prop where
  uri_eq : job.uri = uri
  called : job.call?.isSome = true
  unsettled : ∀ call main, job.phase = .compilingAlone call (some main) → main.covers uri = false

namespace Scheduler

/-- The jobs that wait for the compiler are told apart by their numbers, and each still owes its
document a program. -/
structure Orderly (s : Scheduler) : Prop where
  distinct : (s.compiles.map Job.number).Nodup
  numbered : ∀ job ∈ s.compiles, job.number < s.started
  owing : ∀ job ∈ s.compiles, job.Compiles job.uri

namespace Orderly

variable {s n : Scheduler}

theorem job_ext (h : s.Orderly) {x y : Job} (hf : x ∈ s.compiles)
    (hs : y ∈ s.compiles) (hn : x.number = y.number) :
    x = y :=
  inj_on_of_nodup_map h.distinct hf hs hn

/-- Jobs may end. -/
theorem sublist (h : s.Orderly) (hc : n.compiles.Sublist s.compiles)
    (hs : s.started ≤ n.started) : n.Orderly where
  distinct := h.distinct.sublist (hc.map _)
  numbered := fun job hj ↦ Nat.lt_of_lt_of_le (h.numbered job (hc.subset hj)) hs
  owing := fun job hj ↦ h.owing job (hc.subset hj)

/-- A job may begin to wait for the compiler, or wait for it once more. -/
theorem append (h : s.Orderly) (job : Job) (hc : n.compiles =
      (s.compiles.filter fun o ↦ o.number ≠ job.number) ++ [job])
    (hs : s.started ≤ n.started) (hn : job.number < n.started)
    (how : job.Compiles job.uri) : n.Orderly := by
  have hm : ∀ o ∈ n.compiles, o ∈ s.compiles ∨ o = job := by
    intro o ho
    rw [hc, mem_append, mem_singleton] at ho
    exact ho.imp_left mem_of_mem_filter
  constructor
  · rw [hc, map_append, nodup_append]
    refine ⟨h.distinct.sublist (filter_sublist.map _), nodup_singleton _, ?_⟩
    intro nb hn last hl heq
    obtain ⟨o, ho, rfl⟩ := mem_map.mp hn
    obtain rfl : last = job.number := by simpa using hl
    simp [heq] at ho
  · intro o ho
    obtain hol | rfl := hm o ho
    · exact Nat.lt_of_lt_of_le (h.numbered o hol) hs
    · exact hn
  · intro o ho
    obtain hol | rfl := hm o ho
    · exact h.owing o hol
    · exact how

end Orderly

end Scheduler

namespace Bench

/-- What ties a cache to the open documents and the jobs, apart from some documents that compiles were
planned of too late. -/
structure Sound (b : Bench) (late : List Uri := []) : Prop where
  jobs : b.scheduler.Orderly
  opened : ∀ uri ∉ late, ∀ state, b.cache.state? uri = some state → b.store.contains uri = true
  waiting : ∀ uri, b.cache.tickets uri ≠ [] → (b.cache.compiling? uri).isSome = true
  running : ∀ uri ∉ late, (b.cache.compiling? uri).isSome = true →
    ∃ job ∈ b.scheduler.compiles, job.uri = uri

namespace Sound

variable {b : Bench} {late : List Uri} {n : Scheduler} (h : b.Sound late) {u : Uri} {p : Project}
  {job : Job}

include h

theorem contains_of_compiling (hu : u ∉ late) (hc : (b.cache.compiling? u).isSome = true) :
    b.store.contains u = true := by
  obtain ⟨v, hv⟩ := Option.isSome_iff_exists.mp hc
  obtain ⟨st, hs, -⟩ := Option.bind_eq_some_iff.mp hv
  exact h.opened u hu st hs

theorem mono {more : List Uri} (hm : late ⊆ more) : b.Sound more :=
  { h with
    opened := fun u hu ↦ h.opened u fun hl ↦ hu (hm hl)
    running := fun u hu ↦ h.running u fun hl ↦ hu (hm hl) }

/-- A document that the cache has forgotten is as good as any other. -/
theorem filter_knows : b.Sound (late.filter b.cache.knows) := by
  refine { h with opened := fun u hu st hst ↦ ?_, running := fun u hu hc ↦ ?_ }
  · refine h.opened u (fun hl ↦ hu (mem_filter.mpr ⟨hl, ?_⟩)) st hst
    rw [Cache.knows, hst]
    rfl
  · obtain ⟨v, hv⟩ := Option.isSome_iff_exists.mp hc
    obtain ⟨st, hst, -⟩ := Option.bind_eq_some_iff.mp hv
    refine h.running u (fun hl ↦ hu (mem_filter.mpr ⟨hl, ?_⟩)) hc
    rw [Cache.knows, hst]
    rfl

/-- Documents may be opened at any time. -/
theorem of_store {st : Store} (hst : ∀ u, b.store.contains u = true → st.contains u = true) :
    (b.withStore st).Sound late :=
  { h with opened := fun u hu state hs ↦ hst u (h.opened u hu state hs) }

/-- An operation of the cache keeps a bench sound, if what it leaves a state of is open and what it
leaves to be compiled has a job. -/
theorem perform (op : Cache.Operation) (hj : n.Orderly) (hc : n.cache = (b.cache.perform op).cache)
    (ho : ∀ u ∉ late, ∀ st, (b.cache.perform op).cache.state? u = some st →
      p.store.contains u = true)
    (hr : ∀ u ∉ late, ((b.cache.perform op).cache.compiling? u).isSome = true →
      ∃ job ∈ n.compiles, job.uri = u) : Sound ⟨p, n⟩ late := by
  have hw : n.cache.Awaited := hc ▸ Cache.Awaited.perform h.waiting op
  rw [← hc] at ho hr
  exact ⟨hj, ho, hw, hr⟩

/-- What is forgotten of a document leaves nobody waiting for it. -/
theorem forget (u : Uri) (hst : ∀ o, u ≠ o → b.store.contains o = true →
      p.store.contains o = true) : Sound ⟨p, (b.scheduler.forget u).1⟩ late := by
  have hco : (b.scheduler.forget u).1.compiles = b.scheduler.compiles :=
    Scheduler.compiles_deliver _ _
  refine h.perform (.remove u) (h.jobs.sublist (hco ▸ .refl _) (Nat.le_refl _)) rfl
    (fun o hl st hs ↦ ?_) fun o hl hc ↦ ?_
  · simp only [Cache.perform, state?_remove] at hs
    split_ifs at hs with hn
    exact hst o hn (h.opened o hl st hs)
  · simp only [Cache.perform, compiling?_remove] at hc
    split_ifs at hc
    · cases hc
    · rw [hco]
      exact h.running o hl hc

theorem clear : Sound { b with scheduler := b.scheduler.clear.1 } late := by
  have hc : b.scheduler.clear.1.compiles = b.scheduler.compiles :=
    Scheduler.compiles_deliver _ _
  exact h.perform .clear (h.jobs.sublist (hc ▸ .refl _) (Nat.le_refl _)) rfl nofun nofun

/-- Planning keeps a bench sound, if a document that is to be compiled has a job that does so. -/
theorem plan {reading : Reading} {ch : Bool}
    (ho : reading.uri ∉ late → b.store.contains reading.uri = true) {next : Scheduled}
    (hs : b.scheduler.Starts b.project reading ch next) :
    Sound { b with scheduler := next.1 } late := by
  obtain ⟨hst, hca, hpl⟩ := hs
  have hlt : b.scheduler.started < next.1.started := by omega
  have hle := Nat.le_of_lt hlt
  have hjob : next.1.Orderly ∧ (∀ job ∈ b.scheduler.compiles, job ∈ next.1.compiles) ∧
      ((b.cache.plan reading.uri reading.version reading.force ch).1 = .compile →
        ∃ job ∈ next.1.compiles, job.uri = reading.uri) := by
    obtain ⟨hno, hc, -⟩ | ⟨-, phase, r, hp, -, hc, -⟩ := hpl
    · exact ⟨h.jobs.sublist (hc ▸ .refl _) hle, fun job hj ↦ hc ▸ hj, fun hco ↦ absurd hco hno⟩
    · refine ⟨h.jobs.append ⟨b.scheduler.started, reading.uri, phase⟩ hc hle hlt ?_,
        fun job hj ↦ ?_, fun _ ↦ ?_⟩
      · obtain rfl | rfl := hp
        · exact ⟨rfl, rfl, fun _ _ hp ↦ by cases hp⟩
        · exact ⟨rfl, rfl, fun _ _ hp ↦ by cases hp⟩
      · rw [hc]
        exact mem_append_left _ (mem_filter.mpr
          ⟨hj, decide_eq_true (Nat.ne_of_lt (h.jobs.numbered job hj))⟩)
      · rw [hc]
        exact ⟨_, mem_append_right _ (mem_singleton.mpr rfl), rfl⟩
  obtain ⟨hjo, hk, hne⟩ := hjob
  refine h.perform (.plan reading.uri reading.version reading.force ch) hjo hca
    (fun o hl st hs ↦ ?_) fun o hl hr ↦ ?_
  · by_cases hn : reading.uri = o
    · subst hn
      exact ho hl
    · simp only [Cache.perform, state?_plan_of_ne _ _ _ _ _ hn] at hs
      exact h.opened o hl st hs
  · simp only [Cache.perform, compiling?_plan] at hr
    split_ifs at hr with hp
    · obtain ⟨rfl, hco⟩ := hp
      exact hne hco
    · obtain ⟨job, hj, hu⟩ := h.running o hl hr
      exact ⟨job, hk job hj, hu⟩

/-- Every job that was running before it goes on, except one that has settled its document. -/
theorem complete {p : Program} {r : Option Uri} (hre : ∀ u, r = some u → b.store.contains u = true)
    (hjo : n.Orderly)
    (hc : n.cache = (b.cache.complete p r b.store.contains).2)
    (hk : ∀ job ∈ b.scheduler.compiles, r ≠ some job.uri →
      b.store.contains job.uri = true → ∃ o ∈ n.compiles, o.uri = job.uri) :
    Sound { b with scheduler := n } late := by
  refine h.perform (.complete p r b.store.contains) hjo hc (fun u hl st hst ↦ ?_) fun u hl hr ↦ ?_
  · simp only [Cache.perform, state?_complete] at hst
    split_ifs at hst with hs
    · obtain ha | ⟨-, ht⟩ := (mem_settledBy _ _ _ _).mp hs
      · exact hre u ha
      · exact ht
    · exact h.opened u hl st hst
  · simp only [Cache.perform, compiling?_complete] at hr
    split_ifs at hr with hs
    · cases hr
    · obtain ⟨job, hj, rfl⟩ := h.running u hl hr
      refine hk job hj (fun ha ↦ hs ?_) (h.contains_of_compiling hl hr)
      exact (mem_settledBy _ _ _ _).mpr (Or.inl ha)

theorem abandon (hc : n.cache = (b.cache.abandon job.uri).2) (hj : n.Orderly)
    (hk : ∀ o ∈ b.scheduler.compiles, o.uri ≠ job.uri → o ∈ n.compiles) :
    Sound { b with scheduler := n } late := by
  refine h.perform (.abandon job.uri) hj hc (fun u hl st hs ↦ ?_) fun u hl hr ↦ ?_
  · simp only [Cache.perform, state?_abandon] at hs
    split_ifs at hs with hu
    · obtain ⟨former, hf, -⟩ := Option.map_eq_some_iff.mp hs
      subst hu
      exact h.opened job.uri hl former hf
    · exact h.opened u hl st hs
  · simp only [Cache.perform, compiling?_abandon] at hr
    split_ifs at hr with hu
    · cases hr
    · obtain ⟨o, ho, rfl⟩ := h.running u hl hr
      exact ⟨o, hk o ho (Ne.symm hu), rfl⟩

theorem start (u : Uri) (f : Bool) :
    Sound { b with scheduler := (b.scheduler.start b.project u f).1 } late := by
  obtain ⟨-, hn⟩ | ⟨v, hv, hs⟩ := b.scheduler.start_cases b.project u f
  · rw [hn]
    exact { h with jobs := h.jobs.sublist (.refl _) (Nat.le_succ _) }
  · refine h.plan ?_ hs
    exact fun _ ↦ Store.contains_of_version? hv

/-- Whatever becomes of a job that the compiler has answered, nobody is left waiting. -/
theorem continued {n : Scheduled} (hj : job ∈ b.scheduler.compiles)
    (hne : b.scheduler.Continued b.store job n) :
    Sound { b with scheduler := n.1 } late := by
  -- A job with another number than the one that ends goes on.
  have hot : ∀ o ∈ b.scheduler.compiles, o ≠ job →
      o ∈ b.scheduler.compiles.filter fun o ↦ o.number ≠ job.number :=
    fun o ho hn ↦ mem_filter.mpr ⟨ho, decide_eq_true fun heq ↦ hn (h.jobs.job_ext ho hj heq)⟩
  cases hne with
  | failed hca hc hs _ =>
    refine h.abandon hca (h.jobs.sublist (hc ▸ filter_sublist) (Nat.le_of_eq hs.symm)) ?_
    intro o ho hn
    rw [hc]
    exact hot o ho fun heq ↦ hn (congrArg Job.uri heq)
  | ended p r hr hca hc hs _ =>
    refine h.complete ?_ (h.jobs.sublist (hc ▸ filter_sublist) (Nat.le_of_eq hs.symm)) hca ?_
    · intro u ha
      obtain ⟨rfl, hop⟩ | ⟨rfl, -⟩ := hr
      · exact Option.some.inj ha ▸ hop
      · cases ha
    · intro o ho hno hop
      rw [hc]
      refine ⟨o, hot o ho ?_, rfl⟩
      rintro rfl
      obtain ⟨ha, -⟩ | ⟨-, hcl⟩ := hr
      · exact hno ha
      · rw [hcl] at hop
        cases hop
  | wentOn p _ hop hu hca hc hs _ =>
    have hl := Nat.le_of_eq hs.symm
    refine h.complete ?_ (h.jobs.append
      ⟨job.number, job.uri, .compilingAlone b.scheduler.calls (some p)⟩ hc hl
      ?_ ?_) hca ?_
    · intro u ha
      cases ha
    · exact Nat.lt_of_lt_of_le (h.jobs.numbered job hj) hl
    · refine ⟨rfl, rfl, ?_⟩
      rintro _ _ ⟨⟩
      exact hu
    · intro o ho _ _
      rw [hc]
      by_cases heq : o = job
      · exact ⟨_, mem_append_right _ (mem_singleton.mpr rfl), by rw [heq]⟩
      · exact ⟨o, mem_append_left _ (hot o ho heq), rfl⟩

theorem answer (call : Nat) (r : Except Failure Program) :
    Sound { b with scheduler := (b.scheduler.answer b.project call r).1 } late := by
  obtain hs | ⟨job, hj, hn⟩ := b.scheduler.answer_cases b.project call r
  · rw [hs]
    exact h
  · exact h.continued hj hn

theorem move {n : Bench} (hm : Move b n) : n.Sound late := by
  cases hm with
  | opened u v t =>
    exact h.of_store fun o ho ↦ Store.contains_open? ho u v t
  | changed u v cs =>
    exact h.of_store fun o ho ↦ Store.contains_change? ho u v cs
  | closed u => exact h.forget u fun o hn ho ↦ Store.contains_close? ho hn
  | indexed w => exact { h with }
  | deleted u hc => exact h.forget u fun _ _ ho ↦ ho
  | cleared => exact h.clear
  | started u f => exact h.start u f
  | answered call r => exact h.answer call r

end Sound

end Bench

open Bench

theorem Engine.sound_start (c : Config) (ann : Annotator) : (start c ann).bench.Sound where
  jobs := ⟨nodup_nil, nofun, nofun⟩
  opened := nofun
  waiting := fun _ ht ↦ absurd rfl ht
  running := nofun

namespace Threads

variable {config : Config} {annotate : Annotator} {threads after : Threads}

theorem sound_step (h : threads.Sound threads.late) (hs : threads.Step after) :
    after.Sound after.late := by
  cases hs with
  | move hm => exact (h.move hm).filter_knows
  | read => exact h
  | @plan reading _ changed =>
    refine Sound.filter_knows (Sound.plan (h.mono ?_) ?_
      (threads.scheduler.starts_plan threads.project reading changed))
    · split_ifs
      · exact Subset.refl _
      · exact subset_cons_self _ _
    · intro hl
      by_contra ho
      rw [if_neg ho] at hl
      exact hl mem_cons_self

theorem Reached.sound (h : threads.Reached config annotate) : threads.Sound threads.late := by
  induction h with
  | start => exact Engine.sound_start config annotate
  | step _ hs ih => exact sound_step ih hs

/-- Whatever threads do, a document that somebody waits for is marked as being compiled. If no compile
of it was planned too late, it is open and has a job under way that got to compile it and has neither
settled it nor given it up. -/
theorem waited_for_has_compile (config : Config) (annotate : Annotator) (threads : Threads)
    (h : threads.Reached config annotate) (uri : Uri) (hwaiting : threads.cache.tickets uri ≠ []) :
    (threads.cache.compiling? uri).isSome = true ∧
      (uri ∉ threads.late → threads.store.contains uri = true ∧
        ∃ job ∈ threads.scheduler.jobs, job.Compiles uri) := by
  have hcompiling := h.sound.waiting uri hwaiting
  refine ⟨hcompiling, fun hlate ↦ ⟨h.sound.contains_of_compiling hlate hcompiling, ?_⟩⟩
  obtain ⟨job, hjob, rfl⟩ := h.sound.running uri hlate hcompiling
  exact ⟨job, mem_of_mem_filter hjob, h.sound.jobs.owing job hjob⟩

/-- A document is opened and asked for once more while the main script's program, which turns out
not to cover it, is compiled: the second caller still waits, and the first job still compiles. -/
theorem waited_for_has_compile_alone :
    let engine := ((Engine.start {} fun _ ↦ default).run
      [.filesFound [mainUri], .request 0 (.openDocument noteUri 1 ""),
        .request 1 (.compile noteUri false),
        .answer 0 (.ok { scripts := Table.empty.insert mainUri 1 })]).1
    engine.scheduler.cache.tickets noteUri = [0] ∧
      ∃ job ∈ engine.scheduler.jobs, job.Compiles noteUri := by
  intro engine
  have htickets : engine.scheduler.cache.tickets noteUri = [0] := by
    decide
  have hreached : Reached {} (fun _ ↦ default) { toBench := engine.bench } := reached_run _ _ _
  clear_value engine
  have hwaiting : engine.scheduler.cache.tickets noteUri ≠ [] := by
    rw [htickets]
    exact cons_ne_nil _ _
  have hcompile := waited_for_has_compile _ _ _ hreached noteUri hwaiting
  exact ⟨htickets, (hcompile.2 not_mem_nil).2⟩

/-- The program of the second version of the main script. -/
def secondProgram : Program :=
  { root := mainUri, scripts := Table.empty.insert mainUri 2 }

/-- The main script has been opened and compiled, and is closed between the reading and the planning of
another compile. -/
def lateStart : Threads :=
  let reading : Reading := ⟨mainUri, false, 2⟩
  let opened : Threads :=
    { toBench := ((Engine.start {} fun _ ↦ default).run
        [.request 0 (.openDocument mainUri 2 ""), .answer 0 (.ok secondProgram)]).1.bench
      readings := [reading] }
  let closed : Threads := opened.put { opened.toBench.withStore (opened.store.close? mainUri).2 with
    scheduler := (opened.scheduler.forget mainUri).1 }
  closed.plan reading false

theorem reached_lateStart : lateStart.Reached {} fun _ ↦ default := by
  have hopened := reached_run {} (fun _ ↦ default)
    [.request 0 (.openDocument mainUri 2 ""), .answer 0 (.ok secondProgram)]
  have hread := hopened.step (.read mainUri false (by decide : _ = some ⟨mainUri, false, 2⟩))
  exact (hread.step (.move (.closed _ mainUri))).step (.plan mem_cons_self false)

/-- The program that comes of the late compile is none of a closed document's, so the mark stays. When
the document is opened anew, at an older version, it waits for nothing. -/
theorem waited_for_has_compile_late :
    ∃ threads : Threads, threads.Reached {} (fun _ ↦ default) ∧
      threads.store.contains mainUri = true ∧ threads.cache.tickets mainUri ≠ [] ∧
      ∀ job ∈ threads.scheduler.jobs, ¬ job.Compiles mainUri := by
  have hanswered := reached_lateStart.step (.move (.answered _ 1 (.ok secondProgram)))
  have hopened := hanswered.step (.move (.opened _ mainUri 1 ""))
  have hjoined := hopened.step (.move (.started _ mainUri false))
  have hfree : ∀ jobs : List Job, (∀ job ∈ jobs, job.call? = none) →
      ∀ job ∈ jobs, ¬ job.Compiles mainUri := by
    intro jobs hjoins job hjob hcompiles
    have hcalled := hcompiles.called
    rw [hjoins job hjob] at hcalled
    cases hcalled
  exact ⟨_, hjoined, by decide +kernel, by decide +kernel, hfree _ (by decide +kernel)⟩

end Threads

end StoryScript
