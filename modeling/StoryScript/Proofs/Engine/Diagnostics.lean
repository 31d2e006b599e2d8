import StoryScript.Proofs.Engine.Freshness
import StoryScript.Proofs.Engine.Steps

/-!
What the editor sees of a document. A job that ends tells of every script of its programs, from the
program that was compiled last of those that have the script. So the editor has what the last program
of a document says of it, once no job is under way; except that a job which calls the compiler twice
completes its first program long before it tells of it. If its second call fails, it never does; and
if another job has given the document a newer program in between, the older one is told of last.
`Scheduler.inTime` says that neither happens.
-/

namespace StoryScript

open Cache EngineEvent List Scheduler SchedulerEvent

/-- What is wrong with a script, and at which version. -/
abbrev Told := List Diagnostic × Option Version

/-- What is told of a script, if this tells of it. -/
def SchedulerEvent.tells? (uri : Uri) : SchedulerEvent → Option Told
  | .published o diagnostics v =>
    if o = uri then some (diagnostics, v) else none
  | .called _ _ | .finished _ _ => none

/-- What the editor is told of a script, if this tells of it. -/
def EngineEvent.tells? (uri : Uri) : EngineEvent → Option Told
  | .published o diagnostics v =>
    if o = uri then some (diagnostics, v) else none
  | .noticed _ | .called _ _ | .answered _ _ => none

/-- What the editor was told of a script last. -/
def EngineEvent.lastTold? (uri : Uri) (events : List EngineEvent) : Option Told :=
  (events.filterMap (tells? uri)).getLast?

/-- The last program of a document, if the document is in it. -/
def Cache.covering? (cache : Cache) (uri : Uri) : Option Program :=
  ((cache.snapshot? uri).map Snapshot.program).filter fun program ↦ program.covers uri

namespace Scheduler

section Reports

/-- The scripts of a program, each with the program. -/
def scriptsOf (s : Program) : List (Uri × Program) :=
  s.scripts.keys.map fun uri ↦ (uri, s)

/-- A list of entries with one added, unless its script is there already. -/
def keepFirst (k : List (Uri × Program)) (e : Uri × Program) : List (Uri × Program) :=
  if k.any fun l ↦ l.1 = e.1 then k else k ++ [e]

theorem filter_keepFirst (uri : Uri) (k : List (Uri × Program)) (e : Uri × Program) :
    (keepFirst k e).filter (fun e ↦ e.1 = uri) =
      if e.1 = uri ∧ k.filter (fun e ↦ e.1 = uri) = [] then [e] else k.filter fun e ↦ e.1 = uri := by
  unfold keepFirst
  by_cases he : e.1 = uri
  · subst he
    have hk : (k.any fun l ↦ l.1 = e.1) = true ↔ k.filter (fun l ↦ l.1 = e.1) ≠ [] := by
      rw [any_eq_true, Ne, filter_eq_nil_iff]
      push Not
      rfl
    by_cases ha : (k.any fun l ↦ l.1 = e.1) = true
    · rw [if_pos ha, if_neg fun h ↦ hk.mp ha h.2]
    · have hn := not_ne_iff.mp (mt hk.mpr ha)
      simp [ha, hn]
  · split_ifs <;> simp_all

theorem filter_foldl_keepFirst (uri : Uri) (es k : List (Uri × Program)) :
    (es.foldl keepFirst k).filter (fun e ↦ e.1 = uri) =
      if k.filter (fun e ↦ e.1 = uri) = [] then (es.find? fun e ↦ e.1 = uri).toList
      else k.filter fun e ↦ e.1 = uri := by
  induction es generalizing k with
  | nil => split_ifs with hk <;> simp [hk]
  | cons e r ih =>
    rw [foldl_cons, ih, filter_keepFirst, find?_cons]
    by_cases he : e.1 = uri <;> by_cases hk : k.filter (fun e ↦ e.1 = uri) = [] <;> simp [he, hk]

theorem find?_scriptsOf (s : Program) (uri : Uri) :
    ((scriptsOf s).find? fun e ↦ e.1 = uri) = if s.covers uri then some (uri, s) else none := by
  have hk : uri ∈ s.scripts.keys ↔ s.covers uri = true :=
    (Table.mem_keys_iff _ _).trans (Table.contains_iff _ _).symm
  rw [scriptsOf, find?_map, Function.comp_def]
  cases hf : s.scripts.keys.find? fun key ↦ key = uri with
  | none =>
    rw [if_neg fun hc ↦ absurd (find?_eq_none.mp hf _ (hk.mpr hc)) (by simp)]
    rfl
  | some key =>
    obtain rfl : key = uri := by simpa using find?_some hf
    rw [if_pos (hk.mp (mem_of_find?_eq_some hf))]
    rfl

/-- The program that tells of a script when a job ends: the later one of its programs that has the
script, or for the job's own document its last one. -/
def teller? (main : Option Program) (program : Program) (r uri : Uri) : Option Program :=
  if program.covers uri then some program
  else if main.any fun first ↦ first.covers uri then main
  else if r = uri then some program
  else none

theorem filter_reportedScripts (project : Project) (main : Option Program) (program : Program)
    (r uri : Uri) (ho : r = uri → project.store.contains uri = true) :
    (reportedScripts project (main.toList ++ [program]) r program).filter (fun e ↦ e.1 = uri) =
      ((teller? main program r uri).map fun s ↦ (uri, s)).toList := by
  have hl : (reportedScripts project (main.toList ++ [program]) r program).filter
        (fun e ↦ e.1 = uri) =
      ((scriptsOf program ++ main.toList.flatMap scriptsOf ++ [(r, program)]).foldl
        keepFirst []).filter fun e ↦ e.1 = uri := by
    have hsr : (main.toList ++ [program]).reverse.flatMap scriptsOf =
        scriptsOf program ++ main.toList.flatMap scriptsOf := by
      cases main <;> simp
    have hre : reportedScripts project (main.toList ++ [program]) r program =
        (((main.toList ++ [program]).reverse.flatMap scriptsOf ++ [(r, program)]).foldl
          keepFirst []).filter
          fun e ↦ e.1 ≠ r || project.store.contains r := rfl
    rw [hre, hsr, filter_filter]
    refine filter_congr fun e _ ↦ ?_
    by_cases he : e.1 = uri
    · by_cases hr : r = uri
      · simp [he, hr, ho hr]
      · simp [he, Ne.symm hr]
    · simp [he]
  rw [hl, filter_foldl_keepFirst, find?_append, find?_append, find?_scriptsOf]
  unfold teller?
  cases main with
  | none =>
    by_cases hp : program.covers uri = true <;> by_cases hr : r = uri <;>
      simp [hp, hr]
  | some first =>
    by_cases hp : program.covers uri = true <;> by_cases hf : first.covers uri = true <;>
      by_cases hr : r = uri <;>
      simp [hp, hf, hr, find?_scriptsOf]

variable (scheduler : Scheduler) (project : Project) (job : Job) (uri : Uri)

theorem filterMap_tells?_deliver (s : List Settlement) :
    (scheduler.deliver s).2.filterMap (SchedulerEvent.tells? uri) = [] :=
  scheduler.filterMap_deliver (fun _ _ ↦ rfl) s

/-- Starting a job tells nothing. -/
theorem filterMap_tells?_start (o : Uri) (f : Bool) :
    (scheduler.start project o f).2.filterMap (SchedulerEvent.tells? uri) = [] := by
  obtain hn | ⟨_, he⟩ | ⟨_, -, hc⟩ := scheduler.events_start project o f
  · rw [hn]
    rfl
  · rw [he]
    rfl
  · rw [hc]
    rfl

/-- A job that ends tells of a script once at most. -/
theorem filterMap_tells?_finish (main : Option Program) (program : Program)
    (ho : job.uri = uri → project.store.contains uri = true) :
    (scheduler.finish project job (main.toList ++ [program]) program).2.filterMap
        (SchedulerEvent.tells? uri) =
      ((teller? main program job.uri uri).map fun s ↦ (s.diagnosticsFor uri,
        if project.store.contains uri then scheduler.cache.compiled? uri else none)).toList := by
  have ht : ∀ es : List (Uri × Program),
      (es.map fun e ↦ report project scheduler.cache e.2 e.1).filterMap
          (SchedulerEvent.tells? uri) =
        (es.filter fun e ↦ e.1 = uri).map fun e ↦ (e.2.diagnosticsFor uri,
            if project.store.contains uri then scheduler.cache.compiled? uri else none) := by
    intro es
    induction es with
    | nil => rfl
    | cons e r ih =>
      rw [map_cons, filterMap_cons, ih]
      by_cases he : e.1 = uri
      · simp [report, SchedulerEvent.tells?, he]
      · simp [report, SchedulerEvent.tells?, he]
  simp only [finish, filterMap_append]
  rw [ht, filter_reportedScripts project main program job.uri uri ho]
  cases teller? main program job.uri uri <;> rfl

end Reports

/-- Whether a job's second call is answered in time for a document and the program that the document
has by then. If the call fails, that is not the job's first program, which nobody would tell of. If
the second program leaves the document out, so that the first one tells of it, there is no other. -/
def isInTime (last : Option Program) (uri : Uri) (main : Program) : Except Failure Program → Bool
  | .error _ => last ≠ some main
  | .ok program => program.covers uri || !main.covers uri || last.all fun o ↦ o = main

/-- Whether an answer of the compiler, if it is that to a job's second call, comes in time for a
document. -/
def inTime (scheduler : Scheduler) (uri : Uri) (call : Nat) (r : Except Failure Program) :
    Bool :=
  scheduler.jobs.all fun job ↦
    match job.phase with
    | .compilingAlone own (some main) =>
      own ≠ call || isInTime (scheduler.cache.covering? uri) uri main r
    | _ => true

theorem snapshot?_forget_self {scheduler : Scheduler} {uri o : Uri} (h : o = uri) :
    (scheduler.forget o).1.cache.snapshot? uri = none := by
  have hst : (scheduler.forget o).1.cache.state? uri = none :=
    (state?_remove scheduler.cache o uri).trans (if_pos h)
  rw [snapshot?, hst, Option.bind_none]

/-- One of some jobs has completed a program, and tells of it when it ends. -/
def Owes (jobs : List Job) (program : Program) : Prop :=
  ∃ job ∈ jobs, ∃ call, job.phase = .compilingAlone call (some program)

/-- The editor was told what the last program of a document says of it, or a job will tell it. -/
def Tells (scheduler : Scheduler) (uri : Uri) (told : Option Told) : Prop :=
  ∀ s v, scheduler.cache.snapshot? uri = some s → scheduler.cache.compiled? uri = some v →
    told = some (s.program.diagnosticsFor uri, some v) ∨ Owes scheduler.compiles s.program

namespace Tells

variable {scheduler next : Scheduler} {uri : Uri} {told : Option Told}

/-- Nothing is to be told of a document that has no program. -/
theorem of_none (h : scheduler.cache.snapshot? uri = none) : scheduler.Tells uri told := by
  intro s v hsn
  rw [h] at hsn
  cases hsn

/-- Jobs may be added, as long as the document keeps its program. -/
theorem of_kept (h : scheduler.Tells uri told)
    (hsn : next.cache.snapshot? uri = scheduler.cache.snapshot? uri)
    (hc : next.cache.compiled? uri = scheduler.cache.compiled? uri)
    (hco : ∀ job ∈ scheduler.compiles, job ∈ next.compiles) : next.Tells uri told := by
  intro s v hl hv
  rw [hsn] at hl
  rw [hc] at hv
  obtain ht | ⟨job, hjob, hp⟩ := h s v hl hv
  · exact .inl ht
  · exact .inr ⟨job, hco job hjob, hp⟩

theorem start (h : scheduler.Tells uri told) (hj : scheduler.Orderly) (project : Project)
    (o : Uri) (f : Bool) : (scheduler.start project o f).1.Tells uri told := by
  obtain ⟨-, hn⟩ | ⟨v, -, -, hca, hp⟩ := scheduler.start_cases project o f
  · rw [hn]
    exact h
  · refine h.of_kept ?_ ?_ ?_
    · rw [hca, snapshot?_plan]
    · rw [hca, compiled?_plan]
    · intro job hjob
      obtain ⟨-, hc, -⟩ | ⟨-, _, _, -, -, hc, -⟩ := hp
      · rwa [hc]
      · rw [hc, mem_append, mem_filter]
        exact .inl ⟨hjob, decide_eq_true (Nat.ne_of_lt (hj.numbered job hjob))⟩

theorem forget (h : scheduler.Tells uri told) (o : Uri) :
    (scheduler.forget o).1.Tells uri told := by
  by_cases heq : o = uri
  · exact of_none (snapshot?_forget_self heq)
  have hst : (scheduler.forget o).1.cache.state? uri = scheduler.cache.state? uri :=
    (state?_remove scheduler.cache o uri).trans (if_neg heq)
  refine h.of_kept ?_ ?_ fun job hjob ↦ ?_
  · rw [Cache.snapshot?, hst, Cache.snapshot?]
  · rw [Cache.compiled?, hst, Cache.compiled?]
  · rwa [Scheduler.forget, compiles_deliver]

end Tells

theorem filterMap_tells?_withAlone (scheduler : Scheduler) (project : Project) (job : Job)
    (main : Option Program) (program : Program) (uri : Uri)
    (ho : project.store.contains uri = true) :
    (scheduler.withAlone project job main program).2.filterMap (SchedulerEvent.tells? uri) =
      ((teller? main program job.uri uri).map fun s ↦ (s.diagnosticsFor uri,
        (scheduler.withAlone project job main program).1.cache.compiled? uri)).toList := by
  have hf := filterMap_tells?_finish (scheduler.complete project program
    (if project.store.contains job.uri then some job.uri else none)).1 project job uri main program
    fun _ ↦ ho
  rw [if_pos ho] at hf
  have hde := filterMap_tells?_deliver
    { scheduler with
      cache := (scheduler.cache.complete program
        (if project.store.contains job.uri then some job.uri else none) project.store.contains).2 }
    uri (scheduler.cache.complete program
      (if project.store.contains job.uri then some job.uri else none) project.store.contains).1
  simp only [withAlone, filterMap_append]
  exact (congrArg₂ (· ++ ·) hde hf).trans (nil_append _)

/-- A job that ends settles the open documents among its own one and the scripts of its program. -/
theorem mem_settledBy_job_iff (st : Store) (job : Job) (program : Program) (uri : Uri) :
    uri ∈ settledBy program (if st.contains job.uri then some job.uri else none) st.contains ↔
      st.contains uri = true ∧ (program.covers uri = true ∨ job.uri = uri) := by
  rw [mem_settledBy]
  constructor
  · rintro (hr | ⟨hc, ho⟩)
    · split_ifs at hr with ho
      obtain rfl := Option.some.inj hr
      exact ⟨ho, Or.inr rfl⟩
    · exact ⟨ho, Or.inl hc⟩
  · rintro ⟨ho, hc | rfl⟩
    · exact .inr ⟨hc, ho⟩
    · exact .inl (if_pos ho)

namespace Tells

variable {bench : Bench} {job : Job} {uri : Uri} {told : Option Told} {program : Program}

/-- What a job does not owe is told or owed without it. -/
theorem without (h : bench.scheduler.Tells uri told) (hs : bench.Sound)
    (hjob : job ∈ bench.scheduler.compiles) {s : Snapshot} {v : Version}
    (hsn : bench.cache.snapshot? uri = some s) (hv : bench.cache.compiled? uri = some v)
    (hn : ∀ call, job.phase ≠ .compilingAlone call (some s.program)) :
    told = some (s.program.diagnosticsFor uri, some v) ∨
      Owes (bench.scheduler.compiles.filter fun o ↦ o.number ≠ job.number) s.program := by
  refine (h s v hsn hv).imp_right ?_
  rintro ⟨owing, ho, call, hp⟩
  refine ⟨owing, mem_filter.mpr ⟨ho, decide_eq_true fun heq ↦ ?_⟩, call, hp⟩
  exact hn call (hs.jobs.job_ext ho hjob heq ▸ hp)

section

variable {main : Option Program} (h : bench.scheduler.Tells uri told) (hs : bench.Sound)
  (hd : bench.cache.Dated) (hjob : job ∈ bench.scheduler.compiles)
  (hm : ∀ call first, job.phase = .compilingAlone call (some first) → main = some first)
  (hintime : ∀ first last, main = some first → first.covers uri = true →
    program.covers uri = false → bench.cache.covering? uri = some last → last = first)

include h hs hd hjob hm hintime

/-- A document that keeps its program when a job ends is told of from this program, if at all. -/
theorem withAlone_of_unsettled {s : Snapshot} {v : Version}
    (hsn : bench.cache.snapshot? uri = some s)
    (hv : bench.cache.compiled? uri = some v) (hc : program.covers uri = false)
    (hot : job.uri ≠ uri) :
    (((teller? main program job.uri uri).map fun src ↦
        (src.diagnosticsFor uri, some v)).toList.getLast?.or told) =
      some (s.program.diagnosticsFor uri, some v) ∨
    Owes (bench.scheduler.compiles.filter fun o ↦ o.number ≠ job.number) s.program := by
  have hl : s.program.covers uri = true := by
    rw [hd.compiled, hsn] at hv
    exact (Table.contains_iff _ _).mpr ⟨v, hv⟩
  by_cases hf : main.any (fun first ↦ first.covers uri) = true
  · obtain ⟨first, rfl, hf⟩ := (Option.any_eq_true _ _).mp hf
    have hco : bench.cache.covering? uri = some s.program := by
      simp [covering?, hsn, hl]
    have ht : teller? (some first) program job.uri uri = some first := by
      simp [teller?, hc, hf]
    rw [ht, hintime first s.program rfl hf hc hco]
    exact .inl rfl
  · have ht : teller? main program job.uri uri = none := by
      simp [teller?, hc, hf, hot]
    rw [ht]
    refine h.without hs hjob hsn hv fun call hp ↦ ?_
    rw [hm call _ hp] at hf
    exact hf hl

/-- A document that is settled when a job ends is told of at the same time. One that is not keeps
its program. -/
theorem withAlone :
    (bench.scheduler.withAlone bench.project job main program).1.Tells uri
      (((bench.scheduler.withAlone bench.project job main program).2.filterMap
        (SchedulerEvent.tells? uri)).getLast?.or told) := by
  have hca : (bench.scheduler.withAlone bench.project job main program).1.cache =
      (bench.cache.complete program
        (if bench.store.contains job.uri then some job.uri else none) bench.store.contains).2 := rfl
  have hse := mem_settledBy_job_iff bench.store job program uri
  intro s v hsn hco
  have hv := hco
  rw [hca, snapshot?_complete] at hsn
  rw [hca, compiled?_complete] at hv
  by_cases hme : bench.store.contains uri = true ∧ (program.covers uri = true ∨ job.uri = uri)
  · rw [if_pos (hse.mpr hme)] at hsn hv
    obtain rfl := Option.some.inj hsn
    have hc : program.covers uri = true := (Table.contains_iff _ _).mpr ⟨v, hv⟩
    have ht : teller? main program job.uri uri = some program := by
      rw [teller?, if_pos hc]
    rw [filterMap_tells?_withAlone _ _ _ _ _ _ hme.1, ht, hco]
    exact .inl rfl
  · rw [if_neg fun hi ↦ hme (hse.mp hi)] at hsn hv
    have ho : bench.store.contains uri = true := by
      obtain ⟨st, hst, -⟩ := Option.bind_eq_some_iff.mp hsn
      exact hs.opened uri not_mem_nil st hst
    have hc : program.covers uri = false := Bool.eq_false_iff.mpr fun hc ↦ hme ⟨ho, Or.inl hc⟩
    have hot : job.uri ≠ uri := fun heq ↦ hme ⟨ho, Or.inr heq⟩
    rw [filterMap_tells?_withAlone _ _ _ _ _ _ ho, hco, withAlone_eq, compiles_drop,
      compiles_complete]
    exact h.withAlone_of_unsettled hs hd hjob hm hintime hsn hv hc hot

end

variable (h : bench.scheduler.Tells uri told) (hs : bench.Sound)

include h hs

/-- What is settled before a second call is told of after it. -/
theorem withMain_of_uncovered (hjob : job ∈ bench.scheduler.compiles) {call : Nat}
    (hp : job.phase = .compilingMain call) (ho : bench.store.contains job.uri = true)
    (hc : program.covers job.uri = false) :
    (bench.scheduler.withMain bench.project job program).1.Tells uri
      (((bench.scheduler.withMain bench.project job program).2.filterMap
        (SchedulerEvent.tells? uri)).getLast?.or told) := by
  have hq : (bench.scheduler.withMain bench.project job program).2.filterMap
      (SchedulerEvent.tells? uri) = [] := by
    replace ho : bench.project.store.contains job.uri = true := ho
    simp only [withMain, ho, hc, Bool.and_true, Bool.not_true, Bool.or_false,
      Bool.false_eq_true, if_false, filterMap_append]
    rw [complete, filterMap_tells?_deliver]
    rfl
  have hca : (bench.scheduler.withMain bench.project job program).1.cache =
      (bench.cache.complete program none bench.store.contains).2 := by
    rw [Scheduler.withMain_of_uncovered _ _ _ _ ho hc]
    rfl
  have hco : (bench.scheduler.withMain bench.project job program).1.compiles =
      (bench.scheduler.compiles.filter fun o ↦ o.number ≠ job.number) ++
        [⟨job.number, job.uri, .compilingAlone bench.scheduler.calls (some program)⟩] := by
    rw [Scheduler.withMain_of_uncovered _ _ _ _ ho hc, compiles_call _ _ _ _ _ rfl,
      compiles_complete]
    rfl
  intro s v hsn hv
  rw [hca, snapshot?_complete] at hsn
  rw [hca, compiled?_complete] at hv
  rw [hq, hco]
  by_cases hse : uri ∈ Cache.settledBy program none bench.store.contains
  · rw [if_pos hse] at hsn
    obtain rfl := Option.some.inj hsn
    exact .inr ⟨_, mem_append_right _ (mem_singleton.mpr rfl), _, rfl⟩
  · rw [if_neg hse] at hsn hv
    refine (h.without hs hjob hsn hv fun waited how ↦ ?_).imp_right ?_
    · rw [hp] at how
      cases how
    · rintro ⟨owing, ho, how⟩
      exact ⟨owing, mem_append_left _ ho, how⟩

/-- A job that fails owes nothing, if the program that it completed has been replaced. -/
theorem fail (hd : bench.cache.Dated) (hjob : job ∈ bench.scheduler.compiles)
    (failure : Failure) (hr : ∀ call first, job.phase = .compilingAlone call (some first) →
      bench.cache.covering? uri ≠ some first) :
    (bench.scheduler.fail job failure).1.Tells uri (((bench.scheduler.fail job failure).2.filterMap
        (SchedulerEvent.tells? uri)).getLast?.or told) := by
  have hq : (bench.scheduler.fail job failure).2.filterMap (SchedulerEvent.tells? uri) = [] := by
    simp only [Scheduler.fail, filterMap_append]
    rw [filterMap_tells?_deliver]
    rfl
  have hc : (bench.scheduler.fail job failure).1.cache = (bench.cache.abandon job.uri).2 := rfl
  intro s v hsn hv
  rw [hc, snapshot?_abandon] at hsn
  rw [hc, compiled?_abandon] at hv
  rw [hq, compiles_fail]
  refine h.without hs hjob hsn hv fun call hp ↦ hr call _ hp ?_
  rw [hd.compiled, hsn] at hv
  have hl : s.program.covers uri = true := (Table.contains_iff _ _).mpr ⟨v, hv⟩
  simp [Cache.covering?, hsn, hl]

/-- An answer that comes in time leaves the editor up to date, or a job that brings it up to date. -/
theorem answer (hd : bench.cache.Dated) {call : Nat} {r : Except Failure Program}
    (hintime : bench.scheduler.inTime uri call r = true) :
    (bench.scheduler.answer bench.project call r).1.Tells uri
      (((bench.scheduler.answer bench.project call r).2.filterMap
        (SchedulerEvent.tells? uri)).getLast?.or told) := by
  unfold Scheduler.answer
  cases hf : bench.scheduler.jobs.find? fun job ↦ job.call? = some call with
  | none => exact h
  | some job =>
    have hc : job.call? = some call := by simpa using find?_some hf
    have hme := mem_of_find?_eq_some hf
    have hjob : job ∈ bench.scheduler.compiles := mem_filter.mpr ⟨hme, by rw [hc]; rfl⟩
    have hse : ∀ own first, job.phase = .compilingAlone own (some first) →
        isInTime (bench.cache.covering? uri) uri first r = true := by
      intro own first hp
      have hi := all_eq_true.mp hintime job hme
      rw [Job.call?, hp] at hc
      obtain rfl := Option.some.inj hc
      change isInTime (bench.scheduler.cache.covering? uri) uri first r = true
      simpa [hp] using hi
    dsimp only
    cases r with
    | error failure =>
      refine h.fail hs hd hjob failure fun own first hp ↦ ?_
      simpa [isInTime] using hse own first hp
    | ok program =>
      cases hp : job.phase with
      | joined t => simp [Job.call?, hp] at hc
      | compilingAlone own main =>
        refine h.withAlone hs hd hjob ?_ ?_
        · intro o first ho
          rw [hp] at ho
          exact (JobPhase.compilingAlone.inj ho).2
        · rintro first last rfl hfi hco hl
          simpa [isInTime, hfi, hco, hl] using hse own first hp
      | compilingMain own =>
        by_cases he : program.covers job.uri = true ∨ bench.store.contains job.uri = false
        · simp only [withMain_eq_withAlone _ _ _ _ he]
          refine h.withAlone hs hd hjob (fun o first ho ↦ ?_) fun first _ hm ↦ ?_
          · rw [hp] at ho
            cases ho
          · cases hm
        · obtain ⟨hco, hop⟩ := not_or.mp he
          exact h.withMain_of_uncovered hs hjob hp (by simpa using hop) (by simpa using hco)

end Tells

end Scheduler

namespace Engine

open Bench

/-- Whether an input, if it is an answer of the compiler, comes in time for a document. -/
def inTime (engine : Engine) (uri : Uri) : EngineInput → Bool
  | .answer call r => engine.scheduler.inTime uri call r
  | _ => true

/-- Whether every input of a run comes in time for a document. -/
def runsInTime (uri : Uri) : Engine → List EngineInput → Bool
  | _, [] => true
  | engine, input :: r =>
    engine.inTime uri input && runsInTime uri (engine.step input).1 r

/-- An engine that has told the editor of a document what is to be told, or will, after the events
so far. -/
structure Tells (engine : Engine) (uri : Uri) (events : List EngineEvent) : Prop where
  sound : engine.bench.Sound
  dated : engine.scheduler.cache.Dated
  told : engine.scheduler.Tells uri (lastTold? uri events)

theorem lastTold?_append (uri : Uri) (events l : List EngineEvent) :
    lastTold? uri (events ++ l) = (lastTold? uri l).or (lastTold? uri events) := by
  rw [lastTold?, filterMap_append, getLast?_append]
  rfl

theorem lastTold?_append_of_quiet {uri : Uri} {l : List EngineEvent}
    (h : l.filterMap (EngineEvent.tells? uri) = []) (events : List EngineEvent) :
    lastTold? uri (events ++ l) = lastTold? uri events := by
  rw [lastTold?_append, lastTold?, h]
  rfl

theorem filterMap_tells?_absorb (engine : Engine) (uri : Uri) (events : List SchedulerEvent) :
    (engine.absorb events).2.filterMap (EngineEvent.tells? uri) =
      events.filterMap (SchedulerEvent.tells? uri) :=
  filterMap_absorb (fun _ _ ↦ rfl) (fun _ _ _ ↦ rfl) (fun _ _ ↦ rfl) (fun _ _ ↦ rfl) engine events

namespace Tells

variable {engine : Engine} {uri : Uri} {events : List EngineEvent} {next : Engine}
  {input : EngineInput} (h : engine.Tells uri events)

include h

theorem of_bench_eq (heq : next.bench = engine.bench) : next.Tells uri events := by
  have hsc : next.scheduler = engine.scheduler := congrArg Bench.scheduler heq
  exact ⟨heq ▸ h.sound, hsc ▸ h.dated, hsc ▸ h.told⟩

/-- After a move that tells nothing, the scheduler has to keep up. -/
theorem of_quiet {l : List EngineEvent} (hmo : Moves engine.bench next.bench)
    (hl : l.filterMap (EngineEvent.tells? uri) = [])
    (ht : ∀ told, engine.scheduler.Tells uri told → next.scheduler.Tells uri told) :
    next.Tells uri (events ++ l) := by
  obtain ⟨hs, hd⟩ := sound_dated_moves ⟨h.sound, h.dated⟩ hmo
  refine ⟨hs, hd, ?_⟩
  rw [lastTold?_append_of_quiet hl]
  exact ht _ h.told

theorem startJob (p : JobPurpose) (o : Uri) (f : Bool) :
    (engine.startJob p o f).1.Tells uri (events ++ (engine.startJob p o f).2) := by
  refine h.of_quiet (.single (move_startJob engine p o f)) ?_ fun told ht ↦ ?_
  · rw [Engine.startJob, filterMap_tells?_absorb]
    exact Scheduler.filterMap_tells?_start _ _ _ _ _
  · rw [scheduler_startJob]
    exact ht.start h.sound.jobs engine.project o f

theorem takes (hintime : engine.inTime uri input = true) {l : List EngineEvent}
    {done : List SchedulerEvent} (hta : engine.Takes input l next done) :
    next.Tells uri (events ++ (l ++ (next.absorb done).2)) := by
  have hte : (l ++ (next.absorb done).2).filterMap (EngineEvent.tells? uri) =
      l.filterMap (EngineEvent.tells? uri) ++ done.filterMap (SchedulerEvent.tells? uri) := by
    rw [filterMap_append, filterMap_tells?_absorb]
  have hmo := hta.moves
  have hq (hf : l.filterMap (EngineEvent.tells? uri) = [])
      (hdo : done.filterMap (SchedulerEvent.tells? uri) = [])
      (ht : ∀ told, engine.scheduler.Tells uri told → next.scheduler.Tells uri told) :
      next.Tells uri (events ++ (l ++ (next.absorb done).2)) := by
    refine h.of_quiet hmo ?_ ht
    rw [hte, hf, hdo]
    rfl
  cases hta with
  | opened t o v tx _ =>
    exact hq rfl (filterMap_tells?_start _ _ _ _ _)
      fun _ ht ↦ ht.start h.sound.jobs _ o false
  | started t r o f =>
    exact hq rfl (filterMap_tells?_start _ _ _ _ _) fun _ ht ↦ ht.start h.sound.jobs _ o f
  | closed t o =>
    by_cases heq : o = uri
    · -- Nothing is to be told of a document that is closed.
      obtain ⟨hs, hd⟩ := sound_dated_moves ⟨h.sound, h.dated⟩ hmo
      exact ⟨hs, hd, .of_none (snapshot?_forget_self heq)⟩
    · refine hq (by simp [EngineEvent.tells?, heq]) (filterMap_tells?_deliver _ _ _)
        fun _ ht ↦ ht.forget o
  | deleted o _ =>
    exact hq rfl (filterMap_tells?_deliver _ _ _) fun _ ht ↦ ht.forget o
  | disposed =>
    exact hq rfl (filterMap_tells?_deliver _ _ _) fun _ _ ↦ .of_none rfl
  | answered call res =>
    obtain ⟨hs, hd⟩ := sound_dated_moves ⟨h.sound, h.dated⟩ hmo
    refine ⟨hs, hd, ?_⟩
    rw [lastTold?_append, lastTold?, hte]
    have ht : engine.bench.scheduler.Tells uri (lastTold? uri events) := h.told
    exact ht.answer h.sound h.dated hintime
  | changed _ _ _ _ _ => exact hq rfl rfl fun _ ↦ id
  | refused _ _ _ _ _ => exact hq rfl rfl fun _ ↦ id
  | found _ => exact hq rfl rfl fun _ ↦ id
  | unlisted _ => exact hq rfl rfl fun _ ↦ id
  | elapsed _ => exact hq rfl rfl fun _ ↦ id

theorem handle (hintime : engine.inTime uri input = true) :
    (engine.handle input).1.Tells uri (events ++ (engine.handle input).2) := by
  obtain ⟨l, next, done, ht, heq⟩ := engine.takes_handle input
  rw [heq]
  exact (h.takes hintime ht).of_bench_eq (bench_absorb _ _)

theorem step (hintime : engine.inTime uri input = true) :
    (engine.step input).1.Tells uri (events ++ (engine.step input).2) := by
  have hse := settle_invariant (P := fun next l ↦ next.Tells uri l)
    (fun _ _ _ _ hn ↦ hn.of_bench_eq (bench_withLimiter _ _ _))
    (fun _ _ p o hn ↦ hn.startJob p o false) _ _ (h.handle hintime)
  rw [append_assoc] at hse
  exact hse

theorem run {is : List EngineInput} (hintime : runsInTime uri engine is = true) :
    (engine.run is).1.Tells uri (events ++ (engine.run is).2) := by
  induction is generalizing engine events with
  | nil => simpa [Engine.run] using h
  | cons input r ih =>
    obtain ⟨hi, hr⟩ := Bool.and_eq_true_iff.mp hintime
    have hl := ih (h.step hi) hr
    rw [append_assoc] at hl
    exact hl

end Tells

/-- After every run of an engine in which second calls are answered in time for a document, whenever
no job waits for the compiler: the editor was told of the document last what its last program says of
it, for the version that this program has. No other job's reports come between those of a job. -/
theorem told_of_last_program (config : Config) (annotate : Annotator) (inputs : List EngineInput)
    (uri : Uri) (hintime : runsInTime uri (start config annotate) inputs = true)
    (hidle : ((start config annotate).run inputs).1.scheduler.compiles = [])
    (snapshot : Snapshot) (version : Version)
    (hsnapshot :
      ((start config annotate).run inputs).1.scheduler.cache.snapshot? uri = some snapshot)
    (hversion :
      ((start config annotate).run inputs).1.scheduler.cache.compiled? uri = some version) :
    lastTold? uri ((start config annotate).run inputs).2 =
      some (snapshot.program.diagnosticsFor uri, some version) := by
  have hstart : (start config annotate).Tells uri [] :=
    ⟨sound_start config annotate, dated_empty, Scheduler.Tells.of_none rfl⟩
  obtain htold | ⟨job, hjob, -⟩ := (hstart.run hintime).told snapshot version hsnapshot hversion
  · exact htold
  · rw [hidle] at hjob
    cases hjob

/-- What a compiler may find wrong with a script. -/
def complaint (message : String) : Diagnostic :=
  { range := ⟨⟨0, 0⟩, ⟨0, 1⟩⟩, message }

/-- The program of a version of the main script, with a complaint. -/
def mainProgram (v : Version) (m : String) : Program :=
  { root := mainUri
    scripts := Table.empty.insert mainUri v
    diagnostics := Table.empty.insert mainUri [complaint m] }

/-- The program of the script beside the main script. -/
def noteProgram : Program :=
  { root := noteUri, scripts := Table.empty.insert noteUri 1 }

/-- The inputs of a session in which the main script is compiled, and once more for the script beside
it, which is then to be compiled by itself. -/
def secondCalled : List EngineInput :=
  [.request 0 (.openDocument mainUri 1 ""), .answer 0 (.ok (mainProgram 1 "draft")),
    .request 1 (.openDocument noteUri 1 ""), .answer 1 (.ok (mainProgram 1 "first"))]

/-- The inputs of a session in which the script beside the main script is then compiled. -/
def secondAnswered : List EngineInput :=
  secondCalled ++ [.answer 2 (.ok noteProgram)]

/-- The inputs of a session in which the compiler then goes away. -/
def secondFailed : List EngineInput :=
  secondCalled ++ [.answer 2 (.error .disconnected)]

/-- The inputs of a session in which the main script is changed and compiled before the script
beside it is. -/
def secondOvertaken : List EngineInput :=
  secondCalled ++ [.request 2 (.changeDocument mainUri 2 []),
    .answer 3 (.ok (mainProgram 2 "second")), .answer 2 (.ok noteProgram)]

/-- What the editor was told of a script last, after some inputs. -/
def toldAfter (is : List EngineInput) (uri : Uri) : Option Told :=
  lastTold? uri ((start {} fun _ ↦ default).run is).2

/-- Once the second call is answered, the editor has what the program of the first says of the main
script. -/
theorem told_of_first_program_after_second :
    (after secondCalled).scheduler.compiles ≠ [] ∧
      toldAfter secondCalled mainUri = some ([complaint "draft"], some 1) ∧
      toldAfter secondAnswered mainUri = some ([complaint "first"], some 1) := by
  obtain ⟨hintime, hidle, hsnapshot, hcompiled⟩ :
      runsInTime mainUri (start {} fun _ ↦ default) secondAnswered = true ∧
      (after secondAnswered).scheduler.compiles = [] ∧
      (after secondAnswered).scheduler.cache.snapshot? mainUri = some ⟨1, mainProgram 1 "first"⟩ ∧
      (after secondAnswered).scheduler.cache.compiled? mainUri = some 1 := by
    decide +kernel
  obtain ⟨hwaiting, hdraft⟩ : (after secondCalled).scheduler.compiles ≠ [] ∧
      toldAfter secondCalled mainUri = some ([complaint "draft"], some 1) := by
    decide +kernel
  exact ⟨hwaiting, hdraft, told_of_last_program {} (fun _ ↦ default) secondAnswered mainUri hintime
    hidle ⟨1, mainProgram 1 "first"⟩ 1 hsnapshot hcompiled⟩

/-- If the second call fails, the program of the first is kept and never told of. If the main script
is changed and compiled before the second call is answered, the older program is told of after the
newer one, and for the newer version. -/
theorem told_amiss_unless_in_time :
    ((after secondFailed).scheduler.compiles = [] ∧
      (after secondFailed).scheduler.cache.snapshot? mainUri =
        some ⟨1, mainProgram 1 "first"⟩ ∧
      (after secondFailed).scheduler.cache.compiled? mainUri = some 1 ∧
      toldAfter secondFailed mainUri = some ([complaint "draft"], some 1)) ∧
    ((after secondOvertaken).scheduler.compiles = [] ∧
      (after secondOvertaken).scheduler.cache.snapshot? mainUri =
        some ⟨2, mainProgram 2 "second"⟩ ∧
      (after secondOvertaken).scheduler.cache.compiled? mainUri = some 2 ∧
      toldAfter secondOvertaken mainUri = some ([complaint "first"], some 2)) := by
  refine ⟨?_, ?_⟩ <;> decide +kernel

end Engine

end StoryScript
