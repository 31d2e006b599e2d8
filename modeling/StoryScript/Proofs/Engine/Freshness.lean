import StoryScript.Proofs.Engine.Waiters

/-!
How fresh an answer from the cache is. The cache judges each document by the last program that
covered it; the program that it answers with is the last of one document only. `Cache.Dated` orders
the programs that a cache keeps by the numbers under which they were completed. An answer is out of
date on a document only if that document has since been compiled into a program which leaves out the
one that was asked for (`Engine.hit_fresh_or_left_out`).
-/

namespace StoryScript

namespace Cache

/-- A cache whose programs bear the numbers of their completion, each document with the last one
that covered it. -/
structure Dated (c : Cache) : Prop where
  compiled : ∀ uri, c.compiled? uri =
    (c.snapshot? uri).bind fun snapshot ↦ snapshot.program.versionOf? uri
  numbered : ∀ uri snapshot, c.snapshot? uri = some snapshot → snapshot.number < c.completed
  unique : ∀ first second earlier later, c.snapshot? first = some earlier →
    c.snapshot? second = some later → earlier.number = later.number → earlier = later
  ordered : ∀ first second earlier later, c.snapshot? first = some earlier →
    c.snapshot? second = some later → earlier.program.covers second = true →
    earlier.number ≤ later.number

theorem dated_empty : Dated empty where
  compiled _ := rfl
  numbered := nofun
  unique := nofun
  ordered := nofun

namespace Dated

variable {cache next : Cache} (h : cache.Dated)

include h

/-- Documents may be forgotten. -/
theorem of_forgotten (hversioned : next.Versioned) (hcompleted : next.completed = cache.completed)
    (hkept : ∀ uri snapshot, next.snapshot? uri = some snapshot →
      cache.snapshot? uri = some snapshot) : next.Dated where
  compiled := hversioned
  numbered uri snapshot hs := hcompleted ▸ h.numbered uri snapshot (hkept _ _ hs)
  unique first second earlier later hf hs :=
    h.unique first second earlier later (hkept _ _ hf) (hkept _ _ hs)
  ordered first second earlier later hf hs :=
    h.ordered first second earlier later (hkept _ _ hf) (hkept _ _ hs)

theorem plan (uri : Uri) (version : Version) (force changed : Bool) :
    (cache.plan uri version force changed).2.Dated := by
  refine h.of_forgotten (Versioned.perform h.compiled (.plan uri version force changed))
    (completed_plan _ _ _ _ _) fun other snapshot hs ↦ ?_
  rwa [snapshot?_plan] at hs

theorem abandon (uri : Uri) : (cache.abandon uri).2.Dated := by
  refine h.of_forgotten (Versioned.perform h.compiled (.abandon uri)) rfl fun other snapshot hs ↦ ?_
  rwa [snapshot?_abandon] at hs

theorem remove (uri : Uri) : (cache.remove uri).2.Dated := by
  refine h.of_forgotten (Versioned.perform h.compiled (.remove uri)) rfl fun other snapshot hs ↦ ?_
  rw [snapshot?, state?_remove] at hs
  split_ifs at hs
  · cases hs
  · exact hs

theorem clear : cache.clear.2.Dated :=
  h.of_forgotten (Versioned.perform h.compiled .clear) rfl nofun

/-- A completed program is the last one of every document that it covers and that has a program,
since those are all tracked. -/
theorem complete {program : Program} {requested : Option Uri} {tracked : Uri → Bool}
    (htracked : ∀ uri state, cache.state? uri = some state → tracked uri = true) :
    (cache.complete program requested tracked).2.Dated := by
  have hcases : ∀ uri snapshot,
      (cache.complete program requested tracked).2.snapshot? uri = some snapshot →
      snapshot = ⟨cache.completed, program⟩ ∨
        uri ∉ settledBy program requested tracked ∧ cache.snapshot? uri = some snapshot := by
    intro uri snapshot hs
    rw [snapshot?_complete] at hs
    split_ifs at hs with hsettled
    · exact .inl (Option.some.inj hs).symm
    · exact .inr ⟨hsettled, hs⟩
  constructor
  case compiled => exact Versioned.perform h.compiled (.complete program requested tracked)
  case numbered =>
    intro uri snapshot hs
    rw [completed_complete]
    obtain rfl | ⟨-, hold⟩ := hcases uri snapshot hs
    · exact Nat.lt_succ_self _
    · exact Nat.lt_succ_of_lt (h.numbered uri snapshot hold)
  case unique =>
    intro first second earlier later hf hs hnumber
    obtain rfl | ⟨-, hearlier⟩ := hcases first earlier hf
    · obtain rfl | ⟨-, hlater⟩ := hcases second later hs
      · rfl
      · exact absurd hnumber (Nat.ne_of_gt (h.numbered second later hlater))
    · obtain rfl | ⟨-, hlater⟩ := hcases second later hs
      · exact absurd hnumber (Nat.ne_of_lt (h.numbered first earlier hearlier))
      · exact h.unique first second earlier later hearlier hlater hnumber
  case ordered =>
    intro first second earlier later hf hs hcovers
    obtain rfl | ⟨hunsettled, hlater⟩ := hcases second later hs
    · obtain rfl | ⟨-, hearlier⟩ := hcases first earlier hf
      · exact Nat.le_refl _
      · exact Nat.le_of_lt (h.numbered first earlier hearlier)
    · obtain rfl | ⟨-, hearlier⟩ := hcases first earlier hf
      · obtain ⟨state, hstate, -⟩ := Option.bind_eq_some_iff.mp hlater
        exact absurd ((mem_settledBy _ _ _ _).mpr (.inr ⟨hcovers, htracked second state hstate⟩))
          hunsettled
      · exact h.ordered first second earlier later hearlier hlater hcovers

end Dated

/-- If nothing has changed, every document is at the version of its last program. -/
theorem compiled?_of_unchanged {cache : Cache} {live : List (Uri × Version)}
    (h : cache.anyChanged live = false) {uri : Uri} {version : Version}
    (hlive : (uri, version) ∈ live) : cache.compiled? uri = some version := by
  have hsame := List.any_eq_false.mp h (uri, version) hlive
  simpa using hsame

end Cache

namespace Bench

/-- Every move of a sound bench keeps its cache dated. -/
theorem dated_move {bench next : Bench} (hsound : bench.Sound) (h : bench.cache.Dated)
    (hm : Move bench next) : next.cache.Dated := by
  cases hm with
  | opened => exact h
  | changed => exact h
  | closed uri => exact h.remove uri
  | indexed => exact h
  | deleted uri _ => exact h.remove uri
  | cleared => exact h.clear
  | started uri force =>
    change (bench.scheduler.start bench.project uri force).1.cache.Dated
    obtain ⟨-, hclosed⟩ | ⟨_, -, -, hcache, -⟩ := bench.scheduler.start_cases bench.project uri force
    · rw [hclosed]
      exact h
    · rw [hcache]
      exact h.plan _ _ _ _
  | answered call result =>
    change (bench.scheduler.answer bench.project call result).1.cache.Dated
    have hopen := fun uri ↦ hsound.opened uri List.not_mem_nil
    obtain hsame | ⟨job, -, hnext⟩ := bench.scheduler.answer_cases bench.project call result
    · rw [hsame]
      exact h
    · cases hnext with
      | failed hcache => exact hcache ▸ h.abandon job.uri
      | ended _ _ _ hcache => exact hcache ▸ h.complete hopen
      | wentOn _ _ _ _ hcache => exact hcache ▸ h.complete hopen

theorem sound_dated_moves {bench next : Bench} (h : bench.Sound ∧ bench.cache.Dated)
    (hm : Moves bench next) : next.Sound ∧ next.cache.Dated := by
  induction hm with
  | refl => exact h
  | tail _ hm ih => exact ⟨ih.1.move hm, dated_move ih.1 ih.2 hm⟩

end Bench

/-- A document is open, and a compile of it that is not forced is answered from the cache. -/
def Scheduler.Hits (scheduler : Scheduler) (project : Project) (uri : Uri) (snapshot : Snapshot) :
    Prop :=
  ∃ version, project.store.version? uri = some version ∧ (scheduler.cache.plan uri version false
      (scheduler.cache.anyChanged project.store.versions)).1 = .cached snapshot

/-- The cache answers with the last program of the document, and only while every open document is
at the version of its own last program. -/
theorem Scheduler.Hits.unchanged {scheduler : Scheduler} {project : Project} {uri : Uri}
    {snapshot : Snapshot} (h : scheduler.Hits project uri snapshot) :
    scheduler.cache.snapshot? uri = some snapshot ∧
      scheduler.cache.anyChanged project.store.versions = false := by
  obtain ⟨version, -, hplan⟩ := h
  obtain ⟨found, -, hunchanged, hfound, hcached⟩ | ⟨_, -, -, -, hjoin⟩ | hcompile :=
    scheduler.cache.plan_cases uri version false (scheduler.cache.anyChanged project.store.versions)
  · rw [hcached] at hplan
    exact ⟨Plan.cached.inj hplan ▸ hfound, hunchanged⟩
  · rw [hjoin] at hplan
    cases hplan
  · rw [hcompile] at hplan
    cases hplan

namespace Engine

open Bench

theorem dated_run (config : Config) (annotate : Annotator) (inputs : List EngineInput) :
    ((start config annotate).run inputs).1.scheduler.cache.Dated :=
  (sound_dated_moves ⟨sound_start config annotate, Cache.dated_empty⟩ (moves_run _ inputs)).2

/-- After every run of an engine, let a compile be answered from the cache, and let the answer cover
an open document. The last program of that document is no older than the answer and has its live
version. So has the answer, unless that program is newer and leaves out what was asked for. -/
theorem hit_fresh_or_left_out (config : Config) (annotate : Annotator) (inputs : List EngineInput)
    (uri other : Uri) (snapshot : Snapshot) (live : Version)
    (hhit : ((start config annotate).run inputs).1.scheduler.Hits
      ((start config annotate).run inputs).1.project uri snapshot)
    (hlive : ((start config annotate).run inputs).1.project.store.version? other = some live)
    (hcovers : snapshot.program.covers other = true) :
    ∃ last, ((start config annotate).run inputs).1.scheduler.cache.snapshot? other = some last ∧
      snapshot.number ≤ last.number ∧ last.program.versionOf? other = some live ∧
      (snapshot.program.versionOf? other = some live ∨
        snapshot.number < last.number ∧ last.program.covers uri = false) := by
  have hdated := dated_run config annotate inputs
  obtain ⟨hsnapshot, hunchanged⟩ := hhit.unchanged
  have hcompiled := Cache.compiled?_of_unchanged hunchanged
    ((Store.mem_versions_iff _ _ _).mpr hlive)
  rw [hdated.compiled other] at hcompiled
  obtain ⟨last, hlast, hversion⟩ := Option.bind_eq_some_iff.mp hcompiled
  have hle := hdated.ordered uri other _ _ hsnapshot hlast hcovers
  refine ⟨last, hlast, hle, hversion, ?_⟩
  by_cases hnumber : snapshot.number = last.number
  · rw [hdated.unique uri other _ _ hsnapshot hlast hnumber]
    exact .inl hversion
  · refine .inr ⟨Nat.lt_of_le_of_ne hle hnumber, Bool.eq_false_iff.mpr fun hboth ↦ hnumber ?_⟩
    exact Nat.le_antisymm hle (hdated.ordered other uri _ _ hlast hsnapshot hboth)

/-- The program of the main script and the chapter, the second one that is completed. -/
def bothSnapshot : Snapshot :=
  ⟨1, { root := mainUri, scripts := (Table.empty.insert mainUri 1).insert chapterUri 1 }⟩

/-- The inputs of a session in which the main script and then the chapter are opened. -/
def bothOpened : List EngineInput :=
  [.request 0 (.openDocument mainUri 1 "INCLUDE chapter.ink\n"),
    .answer 0 (.ok { root := mainUri, scripts := Table.empty.insert mainUri 1 }),
    .request 1 (.openDocument chapterUri 1 "== Chapter\n"), .answer 1 (.ok bothSnapshot.program)]

/-- The inputs of a session in which the main script is then changed to include nothing. -/
def chapterExcluded : List EngineInput :=
  bothOpened ++
    [.request 2 (.changeDocument mainUri 2 [⟨none, none, ""⟩]),
      .answer 2 (.ok { root := mainUri, scripts := Table.empty.insert mainUri 2 })]

/-- The engine after some inputs. -/
def after (is : List EngineInput) : Engine :=
  ((start {} fun _ ↦ default).run is).1

/-- While the main script includes the chapter, an answer for the chapter is fresh on the main
script: the last program of each covers both. -/
theorem hit_fresh_while_included :
    (after bothOpened).scheduler.Hits (after bothOpened).project chapterUri bothSnapshot ∧
      (after bothOpened).project.store.version? mainUri = some 1 ∧
      bothSnapshot.program.versionOf? mainUri = some 1 := by
  have hhit : (after bothOpened).scheduler.Hits (after bothOpened).project chapterUri
      bothSnapshot := ⟨1, by decide, by decide⟩
  have hlive : (after bothOpened).project.store.version? mainUri = some 1 := by decide
  have hmain : (after bothOpened).scheduler.cache.snapshot? mainUri = some bothSnapshot := by
    decide
  obtain ⟨last, hlast, -, -, hfresh⟩ := hit_fresh_or_left_out {} (fun _ ↦ default) bothOpened
    chapterUri mainUri bothSnapshot 1 hhit hlive (by decide)
  obtain rfl : bothSnapshot = last := Option.some.inj (hmain.symm.trans hlast)
  exact ⟨hhit, hlive, hfresh.resolve_right fun hnewer ↦ Nat.lt_irrefl _ hnewer.1⟩

/-- Once the main script is changed to include the chapter no more, and is compiled, each document
is at the version of its own last program. An answer for the chapter is its old program, which has
the main script as it was before the change. -/
theorem hit_stale_once_excluded :
    (after chapterExcluded).scheduler.Hits (after chapterExcluded).project chapterUri bothSnapshot ∧
      (after chapterExcluded).project.store.version? mainUri = some 2 ∧
      bothSnapshot.program.covers mainUri = true ∧
      bothSnapshot.program.versionOf? mainUri = some 1 := by
  refine ⟨⟨1, ?_, ?_⟩, ?_, ?_, ?_⟩ <;> decide

end Engine

end StoryScript
