import StoryScript.Proofs.Cache.Basic
import StoryScript.Proofs.Store
import StoryScript.Scheduler

/-!
What a scheduler's operations do to its cache and to the jobs that wait for the compiler
(`Scheduler.compiles`), and how they call the compiler. `Scheduler.Starts` and `Scheduler.Continued` say
once how a job can begin and how it can go on when the compiler answers; what the jobs that joined
others get does not matter here.
-/

namespace StoryScript

open List SchedulerEvent

/-- The call that is made, and the root it is for. -/
def SchedulerEvent.called? : SchedulerEvent → Option (Nat × Uri)
  | .called call r => some (call, r)
  | _ => none

/-- A script that is open or was found. -/
def Project.Knows (proj : Project) (u : Uri) : Prop :=
  proj.store.contains u = true ∨ proj.workspace.containsScript u = true

theorem isKnown_of_mainScriptAbove? {ns : List String} {isKnown : Uri → Bool} {depth : Nat}
    {directory m : Uri} (h : mainScriptAbove? ns isKnown depth directory = some m) :
    isKnown m = true := by
  induction depth generalizing directory with
  | zero => cases h
  | succ depth ih =>
    unfold mainScriptAbove? at h
    cases hf : mainScriptIn? ns isKnown directory with
    | some f =>
      rw [hf] at h
      obtain rfl := Option.some.inj h
      exact find?_some hf
    | none =>
      rw [hf] at h
      cases ho : directory.join? "../" with
      | none =>
        rw [ho] at h
        cases h
      | some outer =>
        rw [ho] at h
        dsimp only at h
        split_ifs at h
        exact ih h

theorem Project.knows_mainScript? {proj : Project} {u m : Uri}
    (h : proj.mainScript? u = some m) : proj.Knows m := by
  obtain ⟨directory, -, ha⟩ := Option.bind_eq_some_iff.mp h
  exact (Bool.or_eq_true _ _).mp (isKnown_of_mainScriptAbove? ha)

namespace Scheduler

/-- The jobs that wait for an answer of the compiler. -/
def compiles (s : Scheduler) : List Job :=
  s.jobs.filter fun job ↦ job.call?.isSome

section

variable (s : Scheduler)

/-- Delivering results ends jobs that joined others, and no others. -/
theorem compiles_deliver (settled : List Settlement) :
    (s.deliver settled).1.compiles = s.compiles := by
  simp only [compiles, deliver, filter_filter]
  refine filter_congr fun job _ ↦ ?_
  obtain ⟨n, u, phase⟩ := job
  cases phase <;> simp [Job.call?]

theorem compiles_drop (n : Nat) :
    (s.drop n).compiles = s.compiles.filter fun job ↦ job.number ≠ n := by
  simp only [compiles, drop, filter_filter]
  refine filter_congr fun job _ ↦ ?_
  rw [Bool.and_comm]

theorem compiles_call (n : Nat) (u r : Uri) (phase : Nat → JobPhase)
    (h : (⟨n, u, phase s.calls⟩ : Job).call?.isSome = true) :
    (s.call n u r phase).1.compiles = (s.compiles.filter fun job ↦ job.number ≠ n) ++
        [⟨n, u, phase s.calls⟩] := by
  rw [← compiles_drop]
  simp only [compiles, call, filter_append]
  congr 1
  simp [h]

/-- How a job that has read its document starts: the cache's plan does without the compiler, or the
compiler is called and the job waits for it. -/
def Starts (project : Project) (reading : Reading) (changed : Bool) (next : Scheduled) : Prop :=
  let planned := s.cache.plan reading.uri reading.version reading.force changed
  next.1.started = s.started + 1 ∧ next.1.cache = planned.2 ∧
    (planned.1 ≠ .compile ∧ next.1.compiles = s.compiles ∧
        (next.2 = [] ∨ ∃ outcome, next.2 = [.finished s.started outcome]) ∨
      planned.1 = .compile ∧ ∃ phase root,
        (phase = .compilingMain s.calls ∨ phase = .compilingAlone s.calls none) ∧
        (root = reading.uri ∨ project.Knows root) ∧
        next.1.compiles = (s.compiles.filter fun job ↦ job.number ≠ s.started) ++
          [⟨s.started, reading.uri, phase⟩] ∧
        next.2 = [.called s.calls root])

theorem starts_plan (project : Project) (reading : Reading) (changed : Bool) :
    s.Starts project reading changed (s.plan project reading changed) := by
  unfold Starts plan
  dsimp only
  cases hp : s.cache.plan reading.uri reading.version reading.force changed with
  | mk plan cache =>
    cases plan with
    | cached snapshot => exact ⟨rfl, rfl, .inl ⟨by simp, rfl, .inr ⟨_, rfl⟩⟩⟩
    | join ticket =>
      refine ⟨rfl, rfl, .inl ⟨by simp, ?_, .inl rfl⟩⟩
      simp [compiles, Job.call?]
    | compile =>
      cases hm : project.mainScript? reading.uri with
      | some main =>
        exact ⟨rfl, rfl, .inr ⟨rfl, _, main, .inl rfl, .inr (Project.knows_mainScript? hm),
          compiles_call _ _ _ _ _ rfl, rfl⟩⟩
      | none =>
        exact ⟨rfl, rfl, .inr ⟨rfl, _, _, .inr rfl, .inl rfl, compiles_call _ _ _ _ _ rfl, rfl⟩⟩

/-- How a job starts: its document is not open, or is read at once. -/
theorem start_cases (project : Project) (uri : Uri) (force : Bool) :
    (project.store.version? uri = none ∧ s.start project uri force =
        ({ s with started := s.started + 1 }, [.finished s.started (.ok none)])) ∨
    ∃ version, project.store.version? uri = some version ∧
      s.Starts project ⟨uri, force, version⟩ (s.cache.anyChanged project.store.versions)
        (s.start project uri force) := by
  unfold start Project.read?
  cases hversion : project.store.version? uri with
  | none => exact .inl ⟨rfl, rfl⟩
  | some version => exact .inr ⟨version, rfl, s.starts_plan _ _ _⟩

/-- Starting a job ends it, calls the compiler, or lets it wait for another job. -/
theorem events_start (project : Project) (uri : Uri) (force : Bool) :
    (s.start project uri force).2 = [] ∨
      (∃ outcome, (s.start project uri force).2 = [.finished s.started outcome]) ∨
      ∃ root, project.Knows root ∧ (s.start project uri force).2 = [.called s.calls root] := by
  obtain ⟨-, hclosed⟩ | ⟨_, hversion, -, -, ⟨-, -, he⟩ | ⟨-, _, root, -, hroot, -, he⟩⟩ :=
    s.start_cases project uri force
  · exact .inr (.inl ⟨_, congrArg Prod.snd hclosed⟩)
  · exact he.imp_right .inl
  · refine .inr (.inr ⟨root, ?_, he⟩)
    obtain rfl | hknown := hroot
    · exact .inl (Store.contains_of_version? hversion)
    · exact hknown

end

section Answer

variable (s : Scheduler) (proj : Project) (job : Job) (p : Program)

/-- Delivering results only ends jobs. -/
theorem filterMap_deliver {α : Type} {done : SchedulerEvent → Option α}
    (hf : ∀ job o, done (.finished job o) = none) (settled : List Settlement) :
    (s.deliver settled).2.filterMap done = [] := by
  rw [filterMap_eq_nil_iff]
  intro e he
  obtain ⟨joined, -, ho⟩ := mem_filterMap.mp he
  split at ho
  · obtain ⟨settlement, -, rfl⟩ := Option.map_eq_some_iff.mp ho
    exact hf _ _
  · cases ho

theorem called?_deliver (settled : List Settlement) :
    (s.deliver settled).2.filterMap called? = [] :=
  s.filterMap_deliver (fun _ _ ↦ rfl) settled

theorem called?_finish (ps : List Program) : (s.finish proj job ps p).2.filterMap called? = [] := by
  have hr : (reportedScripts proj ps job.uri p).filterMap
      (called? ∘ fun e ↦ report proj s.cache e.2 e.1) = [] :=
    filterMap_eq_nil_iff.mpr fun _ _ ↦ rfl
  simp only [finish, filterMap_append, filterMap_map, hr]
  rfl

theorem compiles_complete (r : Option Uri) : (s.complete proj p r).1.compiles = s.compiles :=
  compiles_deliver _ _

/-- A job that has nothing more to ask ends as if it had compiled its document by itself. -/
theorem withMain_eq_withAlone
    (h : p.covers job.uri = true ∨ proj.store.contains job.uri = false) :
    s.withMain proj job p = s.withAlone proj job none p := by
  obtain hco | hc := h
  · cases ho : proj.store.contains job.uri <;> simp [withMain, withAlone, hco, ho]
  · simp [withMain, withAlone, hc]

/-- A document that the main script's program does not cover is compiled by itself. -/
theorem withMain_of_uncovered (h : proj.store.contains job.uri = true)
    (hc : p.covers job.uri = false) :
    (s.withMain proj job p).1 = ((s.complete proj p none).1.call job.number job.uri job.uri
        (.compilingAlone · (some p))).1 := by
  simp [withMain, h, hc]

theorem withAlone_eq (m : Option Program) :
    (s.withAlone proj job m p).1 = (s.complete proj p
        (if proj.store.contains job.uri then some job.uri else none)).1.drop job.number := rfl

theorem compiles_fail (failure : Failure) : (s.fail job failure).1.compiles =
    s.compiles.filter fun o ↦ o.number ≠ job.number :=
  (compiles_deliver _ _).trans (compiles_drop _ _)

end Answer

/-- What a scheduler is after a job of it has ended, or gone on, with a program or without. -/
inductive Continued (s : Scheduler) (store : Store) (job : Job) : Scheduled → Prop
  /-- The job failed, and its document is given up. -/
  | failed (next : Scheduled) (hcache : next.1.cache = (s.cache.abandon job.uri).2)
      (hcomps : next.1.compiles = s.compiles.filter fun other ↦ other.number ≠ job.number)
      (hstarted : next.1.started = s.started)
      (hcalled : next.2.filterMap called? = []) : Continued s store job next
  /-- The job ended with a program, which is settled for its document unless that was closed. -/
  | ended (next : Scheduled) (p : Program) (requested : Option Uri)
      (hreq : (requested = some job.uri ∧ store.contains job.uri = true) ∨
        (requested = none ∧ store.contains job.uri = false))
      (hcache : next.1.cache = (s.cache.complete p requested store.contains).2)
      (hcomps : next.1.compiles = s.compiles.filter fun other ↦ other.number ≠ job.number)
      (hstarted : next.1.started = s.started)
      (hcalled : next.2.filterMap called? = []) : Continued s store job next
  /-- The main script's program does not cover the document, which is compiled by itself. -/
  | wentOn (next : Scheduled) (p : Program) {waited : Nat}
      (hphase : job.phase = .compilingMain waited)
      (hopen : store.contains job.uri = true) (huncovered : p.covers job.uri = false)
      (hcache : next.1.cache = (s.cache.complete p none store.contains).2)
      (hcomps : next.1.compiles = (s.compiles.filter fun other ↦ other.number ≠ job.number) ++
          [⟨job.number, job.uri, .compilingAlone s.calls (some p)⟩])
      (hstarted : next.1.started = s.started)
      (hcalled : next.2.filterMap called? = [(s.calls, job.uri)]) :
      Continued s store job next

section Continued

variable (s : Scheduler) (proj : Project) {job : Job}

theorem continued_withAlone (m : Option Program) (p : Program) :
    Continued s proj.store job (s.withAlone proj job m p) := by
  refine .ended _ p _ ?_ rfl ?_ rfl ?_
  · cases ho : proj.store.contains job.uri with
    | true => exact .inl ⟨rfl, rfl⟩
    | false => exact .inr ⟨rfl, rfl⟩
  · rw [withAlone_eq, compiles_drop, compiles_complete]
  · simp only [withAlone, complete, filterMap_append, called?_deliver, called?_finish, nil_append]

theorem continued_withMain {waited : Nat} (hp : job.phase = .compilingMain waited) (p : Program) :
    Continued s proj.store job (s.withMain proj job p) := by
  by_cases he : p.covers job.uri = true ∨ proj.store.contains job.uri = false
  · rw [withMain_eq_withAlone _ _ _ _ he]
    exact continued_withAlone s proj none p
  · obtain ⟨hc, ho⟩ := not_or.mp he
    rw [Bool.not_eq_true] at hc
    rw [Bool.not_eq_false] at ho
    have hn := withMain_of_uncovered s proj job p ho hc
    refine .wentOn _ p hp ho hc (by rw [hn]; rfl) ?_ (by rw [hn]; rfl) ?_
    · rw [hn, compiles_call _ _ _ _ _ rfl, compiles_complete]
      rfl
    · simp only [withMain, complete, hc, ho, filterMap_append, called?_deliver]
      rfl

variable {s} in
theorem continued_answer {call : Nat}
    (h : s.jobs.find? (fun job ↦ job.call? = some call) = some job)
    (r : Except Failure Program) :
    Continued s proj.store job (s.answer proj call r) := by
  have hc : job.call? = some call := by simpa using find?_some h
  unfold answer
  rw [h]
  obtain ⟨number, u, phase⟩ := job
  cases r with
  | error failure =>
    refine .failed _ rfl (compiles_fail _ _ _) rfl ?_
    simp only [fail, filterMap_append, called?_deliver]
    rfl
  | ok p =>
    cases phase with
    | joined t => cases hc
    | compilingMain waited => exact continued_withMain _ _ rfl _
    | compilingAlone waited m => exact continued_withAlone _ _ _ _

/-- How an answer of the compiler goes on: nobody waits for it, or a job does. -/
theorem answer_cases (call : Nat) (r : Except Failure Program) :
    s.answer proj call r = (s, []) ∨
    ∃ job ∈ s.compiles, Continued s proj.store job (s.answer proj call r) := by
  cases hf : s.jobs.find? fun job ↦ job.call? = some call with
  | none =>
    rw [answer, hf]
    exact .inl rfl
  | some job =>
    have hc : job.call? = some call := by simpa using find?_some hf
    exact .inr ⟨job, mem_filter.mpr ⟨mem_of_find?_eq_some hf, by rw [hc]; rfl⟩,
      continued_answer proj hf r⟩

end Continued

end Scheduler

end StoryScript
