import StoryScript.Proofs.Engine.Rest
import StoryScript.Session

/-!
A forced compile of an open document, followed through from an engine that waits for nothing. It is
the only compile that is under way (`Engine.Serves`), so nobody else is told of its programs, and
what it leaves in the cache is that its programs were completed in turn, the last one for the
document (`Cache.completeAll`).
-/

namespace StoryScript

open EngineEvent List Scheduler

variable {cache : Cache} {ps : List Program} {p : Program}
  {as : Uri → Except Failure Program} {v : Version}

theorem Cache.plan_forced (cache : Cache) (u : Uri) (v : Version) (ch : Bool) :
    (cache.plan u v true ch).1 = .compile := by
  obtain ⟨_, hf, -⟩ | ⟨_, hf, -⟩ | hp := cache.plan_cases u v true ch
  · cases hf
  · cases hf
  · rw [hp]

namespace Scheduler

variable (s : Scheduler) (project : Project)

theorem deliver_nil : s.deliver [] = (s, []) := by
  obtain ⟨cache, jobs, started, cs⟩ := s
  refine Prod.ext (congrArg (mk cache · started cs) ?_) ?_
  · refine filter_eq_self.mpr fun ⟨n, u, phase⟩ _ ↦ ?_
    cases phase <;> rfl
  · refine filterMap_eq_nil_iff.mpr fun ⟨n, u, phase⟩ _ ↦ ?_
    cases phase <;> rfl

/-- A program that nobody waits for is only recorded. -/
theorem complete_of_no_tickets (h : ∀ u, s.cache.tickets u = []) (p : Program) (r : Option Uri) :
    s.complete project p r =
      ({ s with
          cache := (s.cache.complete p r project.store.contains).2 }, []) := by
  have hn : (s.cache.complete p r project.store.contains).1 = [] := by
    refine eq_nil_iff_forall_not_mem.mpr fun settlement hs ↦ ?_
    obtain ⟨-, u, -, ht⟩ := (Cache.mem_complete _ _ _ _ settlement).mp hs
    rw [h u] at ht
    cases ht
  rw [complete]
  dsimp only
  rw [hn]
  exact deliver_nil _

/-- A forced compile of an open document calls the compiler. -/
theorem start_forced {u : Uri} (hv : project.store.version? u = some v) :
    let ch := s.cache.anyChanged project.store.versions
    let planned : Scheduler := { s with
      started := s.started + 1
      cache := (s.cache.plan u v true ch).2 }
    s.start project u true =
      match project.mainScript? u with
      | some main => planned.call s.started u main .compilingMain
      | none => planned.call s.started u u (.compilingAlone · none) := by
  intro ch planned
  have hp : s.cache.plan u v true ch = (.compile, planned.cache) :=
    Prod.ext (s.cache.plan_forced u v ch) rfl
  unfold start Project.read?
  rw [hv, Option.map_some]
  unfold plan
  dsimp only
  rewrite [show s.cache.plan u v true (s.cache.anyChanged project.store.versions) = _ from hp]
  rfl

variable {s project} {job : Job} {p : Program}
  (h : ∀ u, s.cache.tickets u = [])
  (ho : project.store.contains job.uri = true)

include h ho

theorem withAlone_of_no_tickets (main : Option Program) :
    s.withAlone project job main p =
      ({ s with
          cache := (s.cache.complete p (some job.uri)
            project.store.contains).2 } : Scheduler).finish project job
        (main.toList ++ [p]) p := by
  rw [withAlone, ho, if_pos rfl, complete_of_no_tickets s project h]
  rfl

theorem withMain_uncovered_of_no_tickets (hco : p.covers job.uri = false) :
    s.withMain project job p =
      ({ s with
          cache := (s.cache.complete p none
            project.store.contains).2 } : Scheduler).call job.number job.uri job.uri
        (.compilingAlone · (some p)) := by
  have hc := complete_of_no_tickets s project h p none
  let phase (call : Nat) : JobPhase := .compilingAlone call (some p)
  rw [withMain, ho, hco]
  exact congrArg (fun done : Scheduled ↦ ((done.1.call job.number job.uri job.uri phase).1,
    done.2 ++ (done.1.call job.number job.uri job.uri phase).2)) hc

end Scheduler

namespace Engine

variable {eng : Engine} {t call : Nat} {job : Job} {u rt : Uri}

theorem limiterStep?_eq_none_iff {m : LimiterMode} :
    eng.limiterStep? m = none ↔
      ∀ tk step, (eng.limiter m).next? eng.now false = some (tk, step) → step = .wait := by
  unfold limiterStep?
  dsimp only
  cases (eng.limiter m).next? eng.now false with
  | none => simp
  | some f =>
    obtain ⟨tk, step⟩ := f
    cases step <;> simp

/-- Whether the limiters can do anything is up to them and to the clock. -/
theorem Quiet.of_eq (h : eng.Quiet) {n : Engine} (ht : n.throttle = eng.throttle)
    (hd : n.debounce = eng.debounce) (hn : n.now = eng.now) : n.Quiet := by
  intro m
  have hl : n.limiter m = eng.limiter m := by
    cases m with
    | throttle => exact ht
    | debounce => exact hd
  have hmo := h m
  rw [limiterStep?_eq_none_iff] at hmo ⊢
  rwa [hl, hn]

/-- An engine that makes one compile and no other, to answer a request. -/
structure Serves (eng : Engine) (t : Nat) (job : Job) : Prop where
  quiet : eng.Quiet
  only : eng.scheduler.compiles = [job]
  purpose : eng.purposes.lookup job.number = some (.requested t (.compile job.uri true))
  alone : ∀ u, eng.scheduler.cache.tickets u = []
  opened : eng.project.store.contains job.uri = true

theorem Serves.find? (h : eng.Serves t job) (hc : job.call? = some call) :
    eng.scheduler.jobs.find? (fun job ↦ job.call? = some call) = some job := by
  have hme : call ∈ eng.scheduler.outstanding := by
    rw [outstanding, h.only]
    exact mem_filterMap.mpr ⟨job, mem_singleton_self job, hc⟩
  obtain ⟨f, hf, hfi⟩ := eng.scheduler.exists_of_mem_outstanding hme
  rw [h.only, mem_singleton] at hf
  rwa [hf] at hfi

theorem Serves.exists_rounds (h : eng.Serves t job) : ∃ rounds, eng.rounds = rounds + 3 := by
  have hl : eng.scheduler.compiles.length ≤ eng.scheduler.jobs.length := length_filter_le _ _
  rw [h.only, length_singleton] at hl
  refine ⟨eng.rounds - 3, ?_⟩
  unfold rounds
  omega

/-- What the editor is told of a script of a program. -/
def told (project : Project) (cache : Cache) (e : Uri × Program) : EngineEvent :=
  .published e.1 (e.2.diagnosticsFor e.1)
    (if project.store.contains e.1 then cache.compiled? e.1 else none)

/-- The end of a job tells of its scripts and then answers its request. -/
theorem absorb_finish (h : eng.purposes.lookup job.number =
      some (.requested t (.compile job.uri true)))
    (es : List (Uri × Program)) (cache : Cache) (p : Program) :
    eng.absorb ((es.map fun (u, source) ↦ report eng.project cache source u) ++
          [.finished job.number (.ok (some p))]) =
      (eng.withoutJob job.number, es.map (told eng.project cache) ++
        [.answered t (.compiled (.ok (some p)))]) := by
  induction es with
  | nil =>
    rw [map_nil, nil_append, absorb, jobFinished, h]
    rfl
  | cons e r ih =>
    have hab : ∀ l, eng.absorb (report eng.project cache e.2 e.1 :: l) = ((eng.absorb l).1,
          told eng.project cache e :: (eng.absorb l).2) := fun _ ↦ rfl
    rw [map_cons, cons_append, hab, ih]
    rfl

/-- What a compile comes to: its request is answered, once, with a program, and it leaves a cache. -/
structure Answers (t : Nat) (p : Program) (cache : Cache) (next : Engined) : Prop where
  answered : next.2.filter (Session.isAnswerTo t) = [.answered t (.compiled (.ok (some p)))]
  cache : next.1.scheduler.cache = cache

/-- What the end of a compile comes to: it makes no call any more. -/
structure Ends (t : Nat) (p : Program) (cache : Cache) (next : Engined) : Prop
    extends Answers t p cache next where
  calls : next.2.filterMap called? = []

theorem Serves.ends_of_finish (h : eng.Serves t job)
    (han : eng.scheduler.answer eng.project call (.ok p) =
      finish { eng.scheduler with cache } eng.project job ps p) :
    Ends t p cache (eng.step (.answer call (.ok p))) := by
  let finished := finish { eng.scheduler with cache } eng.project job ps
    p
  let a : Engine := { eng with scheduler := finished.1 }
  let es := reportedScripts eng.project ps job.uri p
  have hh : eng.handle (.answer call (.ok p)) = a.absorb finished.2 := by
    rw [handle, han]
  have hp : a.purposes.lookup job.number = _ := h.purpose
  have hq : (a.withoutJob job.number).Quiet := h.quiet.of_eq rfl rfl rfl
  have hs : eng.step (.answer call (.ok p)) =
      (a.withoutJob job.number, es.map (told eng.project cache) ++
        [.answered t (.compiled (.ok (some p)))]) := by
    rw [step, hh]
    dsimp only
    rw [show a.absorb finished.2 = _ from absorb_finish hp es cache p]
    dsimp only
    rw [settle_of_quiet hq, append_nil]
  have hans : (es.map (told eng.project cache)).filter (Session.isAnswerTo t) = [] := by
    refine filter_eq_nil_iff.mpr fun ev he ↦ ?_
    obtain ⟨e, -, rfl⟩ := mem_map.mp he
    exact Bool.false_ne_true
  have hc : (es.map (told eng.project cache)).filterMap called? = [] := by
    refine filterMap_eq_nil_iff.mpr fun ev he ↦ ?_
    obtain ⟨e, -, rfl⟩ := mem_map.mp he
    rfl
  rw [hs]
  refine ⟨⟨?_, rfl⟩, ?_⟩
  · rw [filter_append, hans]
    simp [Session.isAnswerTo]
  · rw [filterMap_append, hc]
    rfl

/-- An answer after which the compile has nothing more to ask. -/
theorem Serves.ends (h : eng.Serves t job) (p : Program) (main : Option Program)
    (han : eng.scheduler.answer eng.project call (.ok p) =
      eng.scheduler.withAlone eng.project job main p) :
    Ends t p (eng.scheduler.cache.complete p (some job.uri) eng.project.store.contains).2
      (eng.step (.answer call (.ok p))) := by
  rw [withAlone_of_no_tickets h.alone h.opened main] at han
  exact h.ends_of_finish han

/-- What a call of the compile comes to: it is made, nothing else happens, and the compile waits for
its answer. -/
structure Asks (eng : Engine) (t : Nat) (job : Job) (rt : Uri) (cache : Cache)
    (next : Engined) : Prop where
  events : next.2 = [.called eng.scheduler.calls rt]
  serves : next.1.Serves t job
  project : next.1.project = eng.project
  cache : next.1.scheduler.cache = cache

/-- A call of the only compile. -/
theorem asks_of_call {handled : Engined} {s : Scheduler} {n : Nat}
    {phase : Nat → JobPhase} {purposes : List (Nat × JobPurpose)} (hq : eng.Quiet)
    (hh : handled = ({ eng with
      scheduler := (s.call n u rt phase).1
      purposes }, [.called s.calls rt]))
    (hc : s.calls = eng.scheduler.calls)
    (hp : (⟨n, u, phase s.calls⟩ : Job).call?.isSome = true)
    (hot : (s.compiles.filter fun job ↦ job.number ≠ n) = [])
    (hpu : purposes.lookup n = some (.requested t (.compile u true)))
    (ha : ∀ o, s.cache.tickets o = [])
    (hop : eng.project.store.contains u = true) :
    Asks eng t ⟨n, u, phase eng.scheduler.calls⟩ rt s.cache
      (handled.1.settle.1, handled.2 ++ handled.1.settle.2) := by
  have hr : handled.1.Quiet := by
    rw [hh]
    exact hq.of_eq rfl rfl rfl
  rw [settle_of_quiet hr, append_nil, hh, ← hc]
  refine ⟨by rw [← hc], ?_, rfl, rfl⟩
  refine ⟨hq.of_eq rfl rfl rfl, ?_, hpu, ha, hop⟩
  dsimp only
  rw [compiles_call s n u rt phase hp, hot]
  rfl

/-- The answer to the call for the main script, if its program does not cover the document: the
document is compiled by itself. -/
theorem Serves.asks_uncovered {n : Nat} (h : eng.Serves t ⟨n, u, .compilingMain call⟩)
    (hc : p.covers u = false) :
    Asks eng t ⟨n, u, .compilingAlone eng.scheduler.calls (some p)⟩ u
      (eng.scheduler.cache.complete p none eng.project.store.contains).2
      (eng.step (.answer call (.ok p))) := by
  let s : Scheduler := { eng.scheduler with
    cache := (eng.scheduler.cache.complete p none eng.project.store.contains).2 }
  let phase (call : Nat) : JobPhase := .compilingAlone call (some p)
  have han : eng.scheduler.answer eng.project call (.ok p) = s.call n u u phase := by
    rw [answer, h.find? rfl]
    exact withMain_uncovered_of_no_tickets h.alone h.opened hc
  have hh : eng.handle (.answer call (.ok p)) = ({ eng with scheduler := (s.call n u u phase).1 },
        [.called s.calls u]) := by
    rw [handle, han]
    rfl
  have hot : (s.compiles.filter fun job ↦ job.number ≠ n) = [] := by
    rw [show s.compiles = _ from h.only]
    simp
  have ha : ∀ o, s.cache.tickets o = [] := by
    intro o
    dsimp only [s]
    rw [Cache.tickets_complete, h.alone o]
    split_ifs <;> rfl
  exact asks_of_call h.quiet hh rfl rfl hot h.purpose ha h.opened

/-- The start of a forced compile, by an engine that waits for nothing. -/
theorem asks_forced (hq : eng.Quiet) (hi : eng.scheduler.compiles = [])
    (ha : ∀ u, eng.scheduler.cache.tickets u = [])
    (hv : eng.project.store.version? u = some v) (t : Nat) :
    let planned := (eng.scheduler.cache.plan u v true
      (eng.scheduler.cache.anyChanged eng.project.store.versions)).2
    let n := eng.step (.request t (.compile u true))
    match eng.project.mainScript? u with
    | some main => Asks eng t
      ⟨eng.scheduler.started, u, .compilingMain eng.scheduler.calls⟩ main planned n
    | none => Asks eng t
      ⟨eng.scheduler.started, u, .compilingAlone eng.scheduler.calls none⟩ u planned
        n := by
  intro planned n
  let s : Scheduler := { eng.scheduler with
    started := eng.scheduler.started + 1
    cache := planned }
  have hoth : (s.compiles.filter fun job ↦ job.number ≠ eng.scheduler.started) = [] := by
    rw [show s.compiles = _ from hi]
    rfl
  have hpl : ∀ o, s.cache.tickets o = [] := by
    intro o
    obtain hsa | ⟨-, -, hot⟩ := eng.scheduler.cache.tickets_plan u v true
      (eng.scheduler.cache.anyChanged eng.project.store.versions) o
    · exact hsa.trans (ha o)
    · exact absurd (Cache.plan_forced _ _ _ _) hot
  have hop := Store.contains_of_version? hv
  -- Whatever the call is for, the job and its purpose are new.
  have has : ∀ (rt : Uri) (phase : Nat → JobPhase),
      (⟨eng.scheduler.started, u, phase s.calls⟩ : Job).call?.isSome = true →
      eng.scheduler.start eng.project u true = s.call eng.scheduler.started u rt phase →
      Asks eng t ⟨eng.scheduler.started, u, phase eng.scheduler.calls⟩ rt planned
        n := by
    intro rt phase hp hs
    have hh : eng.handle (.request t (.compile u true)) =
        ({ eng with
            scheduler := (s.call eng.scheduler.started u rt phase).1
            purposes := (eng.scheduler.started, .requested t (.compile u true)) ::
              eng.purposes }, [.called s.calls rt]) := by
      change eng.startJob _ u true = _
      rw [startJob, hs]
      rfl
    refine asks_of_call hq hh rfl hp hoth ?_ hpl hop
    exact lookup_cons_self
  have hs := eng.scheduler.start_forced eng.project hv
  dsimp only at hs
  cases hm : eng.project.mainScript? u with
  | some main =>
    rw [hm] at hs
    exact has main .compilingMain rfl hs
  | none =>
    rw [hm] at hs
    exact has u (.compilingAlone · none) rfl hs

theorem converse_of_no_calls {es : List EngineEvent}
    (h : es.filterMap called? = []) (as : Uri → Except Failure Program)
    (n : Nat) : converse as (n + 1) eng es = (eng, es) := by
  rw [converse_succ, h]
  rfl

/-- A call that is answered. -/
theorem converse_called {r : Except Failure Program} (hr : as rt = r)
    (hn : (eng.step (.answer call r)).2 ≠ []) (n : Nat) :
    converse as (n + 1) eng [.called call rt] =
      let nx := eng.step (.answer call r)
      ((converse as n nx.1 nx.2).1, .called call rt :: (converse as n nx.1 nx.2).2) := by
  have hs : eng.serve as ([.called call rt].filterMap called?) = eng.step (.answer call r) := by
    have hc : [called call rt].filterMap called? = [(call, rt)] := rfl
    rw [hc, serve_cons, hr]
    exact Prod.ext rfl (append_nil _)
  rw [converse_succ, hs]
  dsimp only
  rw [if_neg hn]
  rfl

theorem Answers.cons_called {n : Engined} (h : Answers t p cache n) (call : Nat)
    (rt : Uri) : Answers t p cache (n.1, .called call rt :: n.2) :=
  ⟨h.answered, h.cache⟩

/-- The last call of a compile. -/
theorem Ends.converse (h : Ends t p cache (eng.step (.answer call (.ok p))))
    (hans : as rt = .ok p) (n : Nat) :
    Answers t p cache (converse as (n + 2) eng [.called call rt]) := by
  have hn : (eng.step (.answer call (.ok p))).2 ≠ [] := by
    intro hno
    have han := h.answered
    rw [hno] at han
    cases han
  rw [converse_called hans hn]
  dsimp only
  rw [converse_of_no_calls h.calls]
  exact h.toAnswers.cons_called call rt

end Engine

/-- The cache after the programs of a compile were completed in turn, the last one for the document
that was asked for. -/
def Cache.completeAll (cache : Cache) (u : Uri) (tr : Uri → Bool) : List Program → Cache
  | [] => cache
  | [p] => (cache.complete p (some u) tr).2
  | p :: l => (cache.complete p none tr).2.completeAll u tr l

/-- A program has the open documents among its scripts at their live versions. -/
def Program.AgreesWith (p : Program) (live : Uri → Option Version) : Prop :=
  ∀ u v, live u = some v → p.covers u = true → p.versionOf? u = some v

namespace Cache

variable {cache : Cache} {u o : Uri} {tr : Uri → Bool} {live : Uri → Option Version}
  {v : Version} {p : Program}

/-- A program that agrees with the live versions takes none away, and brings those of the documents
that it covers. -/
theorem compiled?_complete_of_agrees (hag : p.AgreesWith live)
    (hl : live o = some v) {r : Option Uri}
    (hr : ∀ u, r = some u → p.covers u = true)
    (h : cache.compiled? o = some v ∨ (p.covers o = true ∧ tr o = true)) :
    (cache.complete p r tr).2.compiled? o = some v := by
  rw [compiled?_complete]
  split_ifs with hs
  · obtain has | ⟨hc, -⟩ := (mem_settledBy _ _ _ _).mp hs
    · exact hag o v hl (hr o has)
    · exact hag o v hl hc
  · obtain hol | hn := h
    · exact hol
    · exact absurd ((mem_settledBy _ _ _ _).mpr (Or.inr hn)) hs

theorem compiled?_completeAll (hli : live o = some v) (hag : ∀ p ∈ ps, p.AgreesWith live)
    (hla : ∀ p, ps.getLast? = some p → p.covers u = true)
    (h : cache.compiled? o = some v ∨ ∃ p ∈ ps, p.covers o = true ∧ tr o = true) :
    (cache.completeAll u tr ps).compiled? o = some v := by
  induction ps generalizing cache with
  | nil => simpa [completeAll] using h
  | cons p tl ih =>
    have hp := hag p mem_cons_self
    have hf : ∀ r, (∀ u, r = some u → p.covers u = true) → (cache.compiled? o = some v ∨
          (p.covers o = true ∧ tr o = true)) →
        (cache.complete p r tr).2.compiled? o = some v :=
      fun r hr ↦ compiled?_complete_of_agrees hp hli hr
    cases tl with
    | nil =>
      refine hf (some u) ?_ (by simpa using h)
      rintro _ ⟨⟩
      exact hla p rfl
    | cons y tl =>
      refine ih (fun l hl ↦ hag l (mem_cons_of_mem _ hl)) hla ?_
      obtain hol | ⟨one, hon, hc⟩ := h
      · exact .inl (hf none nofun (Or.inl hol))
      · obtain rfl | hl := mem_cons.mp hon
        · exact .inl (hf none nofun (Or.inr hc))
        · exact .inr ⟨one, hl, hc⟩

theorem compiling?_completeAll (cache : Cache) (u : Uri) (tr : Uri → Bool)
    (h : ps ≠ []) : (cache.completeAll u tr ps).compiling? u = none := by
  induction ps generalizing cache with
  | nil => exact absurd rfl h
  | cons p r ih =>
    cases r with
    | nil =>
      have hs : u ∈ settledBy p (some u) tr :=
        (mem_settledBy _ _ _ _).mpr (Or.inl rfl)
      rw [completeAll, compiling?_complete, if_pos hs]
    | cons y r => exact ih _ (cons_ne_nil _ _)

theorem completed_completeAll (cache : Cache) (u : Uri) (tr : Uri → Bool) (ps : List Program) :
    (cache.completeAll u tr ps).completed = cache.completed + ps.length := by
  induction ps generalizing cache with
  | nil => rfl
  | cons p r ih =>
    cases r with
    | nil => exact completed_complete _ _ _ _
    | cons y r =>
      have hr := ih (cache.complete p none tr).2
      rw [completed_complete, Nat.add_assoc, Nat.add_comm 1] at hr
      exact hr

end Cache

/-- The programs that a compile of a document takes, in order: that of the main script, if there is
one, and that of the document by itself unless the main script's program covers it. -/
def Project.programsFor (project : Project) (build : Uri → Option Program) (u : Uri) :
    List Program :=
  match project.mainScript? u with
  | none => (build u).toList
  | some main =>
    match build main with
    | none => []
    | some p => if p.covers u then [p] else p :: (build u).toList

namespace Project

variable {project : Project} {build : Uri → Option Program} {u : Uri} {alone p : Program}
  (hm : ∀ main, project.mainScript? u = some main → (build main).isSome = true)
  (ha : build u = some alone)

include hm ha

/-- The ways in which a compile goes, if all that it asks for can be built. -/
theorem programsFor_cases :
    (project.mainScript? u = none ∧ project.programsFor build u = [alone]) ∨
    ∃ main x, project.mainScript? u = some main ∧ build main = some x ∧
      ((x.covers u = true ∧ project.programsFor build u = [x]) ∨
        (x.covers u = false ∧ project.programsFor build u = [x, alone])) := by
  unfold programsFor
  cases hp : project.mainScript? u with
  | none => exact .inl ⟨rfl, by rw [ha]; rfl⟩
  | some main =>
    obtain ⟨x, hf⟩ := Option.isSome_iff_exists.mp (hm main hp)
    refine .inr ⟨main, x, rfl, hf, ?_⟩
    dsimp only
    rw [hf, ha]
    dsimp only
    cases x.covers u with
    | true => exact .inl ⟨rfl, rfl⟩
    | false => exact .inr ⟨rfl, rfl⟩

theorem exists_build_of_mem_programsFor (h : p ∈ project.programsFor build u) :
    ∃ rt, build rt = some p := by
  obtain ⟨-, hp⟩ | ⟨main, x, -, hf, ⟨-, hp⟩ | ⟨-, hp⟩⟩ := programsFor_cases hm ha
  · rw [hp, mem_singleton] at h
    exact ⟨u, h ▸ ha⟩
  · rw [hp, mem_singleton] at h
    exact ⟨main, h ▸ hf⟩
  · rw [hp, mem_pair] at h
    obtain rfl | rfl := h
    · exact ⟨main, hf⟩
    · exact ⟨u, ha⟩

/-- The last program of a compile covers the document. -/
theorem covers_of_getLast?_programsFor (hc : alone.covers u = true)
    (h : (project.programsFor build u).getLast? = some p) : p.covers u = true := by
  obtain ⟨-, hp⟩ | ⟨main, x, -, -, ⟨hf, hp⟩ | ⟨-, hp⟩⟩ := programsFor_cases hm ha
  · rw [hp] at h
    exact Option.some.inj h ▸ hc
  · rw [hp] at h
    exact Option.some.inj h ▸ hf
  · rw [hp] at h
    exact Option.some.inj h ▸ hc

end Project

/-- A forced compile of an open document, by an engine that waits for nothing: once the compiler has
answered, the request is answered with the last of its programs, and all of them have been
completed. -/
theorem Engine.answers_forced {eng : Engine} (hq : eng.Quiet) (hi : eng.scheduler.compiles = [])
    (ha : ∀ u, eng.scheduler.cache.tickets u = []) {u : Uri}
    (hv : eng.project.store.version? u = some v) (t : Nat)
    {build : Uri → Option Program}
    (han : ∀ rt p, build rt = some p → as rt = .ok p)
    (hm : ∀ main, eng.project.mainScript? u = some main → (build main).isSome = true)
    {alone : Program} (hb : build u = some alone) :
    let planned := (eng.scheduler.cache.plan u v true
      (eng.scheduler.cache.anyChanged eng.project.store.versions)).2
    let nx := eng.step (.request t (.compile u true))
    let ps := eng.project.programsFor build u
    ∃ p, ps.getLast? = some p ∧ Answers t p (planned.completeAll u eng.project.store.contains ps)
        (converse as nx.1.rounds nx.1 nx.2) := by
  intro planned nx ps
  have has := asks_forced hq hi ha hv t
  dsimp only at has
  obtain ⟨hpr, hp⟩ | ⟨main, x, hpr, hf, hca⟩ := Project.programsFor_cases hm hb
  · rw [hpr] at has
    have he := has.serves.ends alone none (by rw [answer, has.serves.find? rfl])
    rw [has.cache, has.project] at he
    obtain ⟨n, hr⟩ := has.serves.exists_rounds
    dsimp only [ps]
    rw [hp, has.events, hr]
    exact ⟨alone, rfl, he.converse (han u alone hb) (n + 1)⟩
  · rw [hpr] at has
    obtain ⟨n, hr⟩ := has.serves.exists_rounds
    rw [has.events, hr]
    dsimp only [ps]
    obtain ⟨hc, hp⟩ | ⟨hc, hp⟩ := hca
    · have he := has.serves.ends x none (by
        rw [answer, has.serves.find? rfl]
        exact withMain_eq_withAlone _ _ _ _ (Or.inl hc))
      rw [has.cache, has.project] at he
      rw [hp]
      exact ⟨x, rfl, he.converse (han main x hf) (n + 1)⟩
    · have hs := has.serves.asks_uncovered hc
      have he := hs.serves.ends alone (some x) (by rw [answer, hs.serves.find? rfl])
      rw [hs.cache, hs.project, has.cache, has.project] at he
      have hso : (nx.1.step (.answer eng.scheduler.calls (.ok x))).2 ≠ [] := by
        rw [hs.events]
        exact cons_ne_nil _ _
      rw [hp]
      refine ⟨alone, rfl, ?_⟩
      rw [converse_called (han main x hf) hso (n + 2)]
      dsimp only
      rw [hs.events]
      exact (he.converse (han u alone hb) n).cons_called _ _

end StoryScript
