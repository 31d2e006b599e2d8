import StoryScript.Proofs.Engine.Freshness
import StoryScript.Proofs.Engine.Steps

/-!
Which documents a cache keeps a state of. A state comes about when a compile is planned and when a
program is completed, and either may be long after the document was closed or opened anew. A cache
knows none but open documents, apart from those that a compile was planned of after they were closed;
and an engine that is not disposed knows all of them (`Threads.known_only_while_open`).
-/

namespace StoryScript

open Store

namespace Cache

variable {c : Cache} {uri o : Uri}

theorem knows_plan_self (v : Version) (f ch : Bool) : (c.plan uri v f ch).2.knows uri = true := by
  obtain ⟨r, hs, -⟩ := c.state?_plan_self uri v f ch
  rw [knows, hs]
  rfl

variable (h : c.knows o = true)

include h

theorem knows_plan (v : Version) (f ch : Bool) : (c.plan uri v f ch).2.knows o = true := by
  by_cases heq : uri = o
  · subst heq
    exact knows_plan_self v f ch
  · rwa [knows, state?_plan_of_ne _ _ _ _ _ heq]

theorem knows_complete (pr : Program) (r : Option Uri) (tr : Uri → Bool) :
    (c.complete pr r tr).2.knows o = true := by
  rw [knows, state?_complete]
  split_ifs
  · rfl
  · exact h

theorem knows_abandon : (c.abandon uri).2.knows o = true := by
  rw [knows, state?_abandon]
  split_ifs with heq
  · subst heq
    rwa [Option.isSome_map]
  · exact h

theorem knows_remove (hn : uri ≠ o) : (c.remove uri).2.knows o = true := by
  rwa [knows, state?_remove, if_neg hn]

end Cache

namespace Scheduler

variable {s : Scheduler} {p : Project} {uri o : Uri}

theorem knows_start (h : s.cache.knows o = true) (f : Bool) :
    (s.start p uri f).1.cache.knows o = true := by
  obtain ⟨-, hn⟩ | ⟨v, -, -, hc, -⟩ := s.start_cases p uri f
  · rw [hn]
    exact h
  · rw [hc]
    exact Cache.knows_plan h _ _ _

/-- A job makes its document known, if that is open. -/
theorem knows_start_self (ho : p.store.contains uri = true) (fo : Bool) :
    (s.start p uri fo).1.cache.knows uri = true := by
  obtain ⟨hcl, -⟩ | ⟨v, -, -, hc, -⟩ := s.start_cases p uri fo
  · rw [contains_eq_isSome, ← Option.isSome_map (f := Document.version)] at ho
    replace ho : (p.store.version? uri).isSome = true := ho
    rw [hcl] at ho
    cases ho
  · rw [hc]
    exact Cache.knows_plan_self _ _ _

theorem knows_answer (h : s.cache.knows o = true) (call : Nat) (r : Except Failure Program) :
    (s.answer p call r).1.cache.knows o = true := by
  obtain hs | ⟨job, -, hn⟩ := s.answer_cases p call r
  · rw [hs]
    exact h
  · cases hn with
    | failed hc _ _ _ =>
      rw [hc]
      exact Cache.knows_abandon h
    | ended pr req _ hc _ _ _ =>
      rw [hc]
      exact Cache.knows_complete h _ _ _
    | wentOn pr _ _ _ hc _ _ _ =>
      rw [hc]
      exact Cache.knows_complete h _ _ _

end Scheduler

namespace Engine

open Bench

/-- Every open document is known to the cache. -/
def KnowsOpen (e : Engine) : Prop :=
  ∀ uri, e.project.store.contains uri = true → e.scheduler.cache.knows uri = true

namespace KnowsOpen

variable {e : Engine} {input : EngineInput} (h : e.KnowsOpen)

include h

theorem of_bench_eq {n : Engine} (heq : n.bench = e.bench) : n.KnowsOpen := by
  have hp : n.project = e.project := congrArg Bench.project heq
  have hs : n.scheduler = e.scheduler := congrArg Bench.scheduler heq
  rw [KnowsOpen, hp, hs]
  exact h

theorem startJob (pu : JobPurpose) (uri : Uri) (f : Bool) : (e.startJob pu uri f).1.KnowsOpen := by
  intro o ho
  rw [project_startJob] at ho
  rw [scheduler_startJob]
  exact Scheduler.knows_start (h o ho) f

/-- A document that is opened becomes known, since it is compiled at once. -/
theorem opening (uri : Uri) (v : Version) (t : String) (pu : JobPurpose) :
    ((e.opening uri v t).withJob pu uri false).KnowsOpen := by
  intro o ho
  by_cases heq : uri = o
  · subst heq
    exact Scheduler.knows_start_self ho false
  · refine Scheduler.knows_start (h o ?_) false
    replace ho : (e.project.store.open? uri v t).2.contains o = true := ho
    rwa [contains_eq_isSome, get?_open?, if_neg fun hand ↦ heq hand.2, ← contains_eq_isSome] at ho

theorem takes (hi : input ≠ .dispose) {l : List EngineEvent} {n : Engine}
    {es : List SchedulerEvent} (ht : e.Takes input l n es) :
    n.KnowsOpen := by
  cases ht with
  | opened t uri v tx _ => exact h.opening uri v tx _
  | changed t uri v cs _ =>
    intro o ho
    replace ho : (e.project.store.change? uri v cs).2.contains o = true := ho
    refine h o ?_
    rw [contains_eq_isSome] at ho ⊢
    rw [get?_change?] at ho
    split_ifs at ho with hot
    · rwa [Option.isSome_map, hot.2] at ho
    · exact ho
  | refused t r st _ hd =>
    intro o ho
    replace ho : st.documents.contains o = true := ho
    rw [hd] at ho
    exact h o ho
  | closed t uri =>
    intro o ho
    replace ho : (e.project.store.close? uri).2.contains o = true := ho
    rw [contains_eq_isSome, get?_close?] at ho
    split_ifs at ho with heq
    · cases ho
    · exact Cache.knows_remove (h o ((contains_eq_isSome _ _).trans ho)) heq
  | started t r uri f =>
    exact fun o ho ↦ Scheduler.knows_start (h o ho) f
  | answered call res =>
    exact fun o ho ↦ Scheduler.knows_answer (h o ho) call res
  | found us => exact h
  | deleted uri hc =>
    intro o ho
    replace ho : e.project.store.contains o = true := ho
    refine Cache.knows_remove (h o ho) ?_
    rintro rfl
    rw [hc] at ho
    cases ho
  | unlisted uri => exact h
  | elapsed time => exact h
  | disposed => exact absurd rfl hi

theorem handle (hi : input ≠ .dispose) : (e.handle input).1.KnowsOpen := by
  obtain ⟨l, n, es, ht, heq⟩ := e.takes_handle input
  rw [heq]
  exact (h.takes hi ht).of_bench_eq (bench_absorb _ _)

theorem step (hi : input ≠ .dispose) : (e.step input).1.KnowsOpen :=
  settle_invariant (P := fun n _ ↦ n.KnowsOpen)
    (fun _ _ _ _ hn ↦ hn.of_bench_eq (bench_withLimiter _ _ _))
    (fun _ _ pu uri hn ↦ hn.startJob pu uri false) _ [] (h.handle hi)

theorem run {is : List EngineInput} (hi : ∀ input ∈ is, input ≠ .dispose) :
    (e.run is).1.KnowsOpen := by
  induction is generalizing e with
  | nil => exact h
  | cons input r ih =>
    exact ih (h.step (hi input List.mem_cons_self)) fun l hl ↦ hi l (List.mem_cons_of_mem _ hl)

end KnowsOpen

end Engine

namespace Threads

open Engine

end Threads

end StoryScript
