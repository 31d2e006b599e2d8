import StoryScript.Proofs.Cache.Run
import StoryScript.Proofs.Story

/-!
What a caller gets that joined a compile. A `Ledger` follows a cache together with the compiles that
its plans have started, so that a completion can name the compile it ends (`Call.ends`), and a
completion has caught up if its program holds the version that the compile was planned for
(`Ledger.CaughtUp`). The tickets of a document are not tied to one compile: the first completion
that settles the document serves them all. If that one ends a compile of the document that was
planned for the version asked for or a newer one, the caller gets no older version; in every other
case it may (`joined_reaches_iff_planned`).
-/

namespace StoryScript

open List

/-- Whether a program holds a version of a script that is at least as new as a given one. -/
def Program.Reaches (p : Program) (u : Uri) (v : Version) : Prop :=
  ∃ held, p.versionOf? u = some held ∧ v ≤ held

namespace Cache

/-- A call of a cache, with the number of the compile that it ends, if it ends one. -/
structure Call where
  operation : Operation
  ends : Option Nat := none

/-- A cache, and the compiles that were started with it: for each of them the document and the
version that it was planned for. -/
structure Ledger where
  cache : Cache := Cache.empty
  started : List (Uri × Version) := []

namespace Ledger

def record (l : Ledger) (call : Call) : Ledger :=
  let r := l.cache.perform call.operation
  { cache := r.cache
    started := match call.operation, r.plan with
      | .plan u v _ _, some .compile => l.started ++ [(u, v)]
      | _, _ => l.started }

def recordAll (l : Ledger) (cs : List Call) : Ledger :=
  cs.foldl record l

/-- The version of a document that a compile was planned for, if it is a compile of the document. -/
def planned? (l : Ledger) (compile : Option Nat) (u : Uri) : Option Version :=
  match compile.bind (l.started[·]?) with
  | some (t, v) => if t = u then some v else none
  | none => none

/-- A completion for a document that ends a compile of it has caught up with the version that the
compile was planned for. -/
def CaughtUp (l : Ledger) (call : Call) : Prop :=
  match call.operation with
  | .complete p (some u) _ =>
    ∀ v, l.planned? call.ends u = some v → p.Reaches u v
  | _ => True

/-- All completions among some calls have caught up. -/
def AllCaughtUp (l : Ledger) : List Call → Prop
  | [] => True
  | call :: r => l.CaughtUp call ∧ (l.record call).AllCaughtUp r

/-- A completion for a document ends a compile of it that was planned for a version or a newer
one. -/
def EndsPlanned (l : Ledger) (r : Option Uri) (compile : Option Nat) (u : Uri)
    (v : Version) : Prop :=
  r = some u ∧ ∃ planned, l.planned? compile u = some planned ∧ v ≤ planned

theorem cache_recordAll (l : Ledger) (cs : List Call) :
    (l.recordAll cs).cache = l.cache.performAll (cs.map Call.operation) := by
  induction cs generalizing l with
  | nil => rfl
  | cons call r ih => exact ih (l.record call)

theorem caughtUp_of_append {l : Ledger} (pre r : List Call) {call : Call}
    (h : l.AllCaughtUp (pre ++ call :: r)) :
    (l.recordAll pre).CaughtUp call := by
  induction pre generalizing l with
  | nil => exact h.1
  | cons x tl ih => exact ih h.2

end Ledger

open Ledger

/-- A program that holds an old version of one script, and some version of the script it is for. -/
def staleProgram (u : Uri) (older : Version) (r : Option Uri) (held : Version) :
    Program :=
  let ss := Table.empty.insert u older
  { scripts := match r with
      | some t => ss.insert t held
      | none => ss }

theorem versionOf?_staleProgram (u : Uri) (older : Version) (r : Option Uri)
    (held : Version) : (staleProgram u older r held).versionOf? u =
      some (if r = some u then held else older) := by
  unfold staleProgram Program.versionOf?
  cases r with
  | none => simp
  | some t =>
    rw [Table.get?_insert, Table.get?_insert_self]
    by_cases h : t = u <;> simp [h]

/-- Where a completion ends no compile of a document that was planned for a version, it may settle
the document with an older version and still have caught up. -/
theorem exists_caughtUp_not_reaches (l : Ledger) {p : Program} {r : Option Uri}
    {tr : Uri → Bool} {compile : Option Nat} {u : Uri} {v older : Version}
    (hs : u ∈ settledBy p r tr)
    (he : ¬ l.EndsPlanned r compile u v) (holder : older < v) :
    ∃ stale, u ∈ settledBy stale r tr ∧ l.CaughtUp ⟨.complete stale r tr, compile⟩ ∧
      ¬ stale.Reaches u v := by
  set held := (r.bind (l.planned? compile)).getD older with hh
  have ho : (if r = some u then held else older) < v := by
    split_ifs with hr
    · rw [hh, hr, Option.bind_some]
      cases hp : l.planned? compile u with
      | none => exact holder
      | some planned =>
        by_contra hn
        exact he ⟨hr, planned, hp, Int32.not_lt.mp hn⟩
    · exact holder
  have hv := versionOf?_staleProgram u older r held
  refine ⟨staleProgram u older r held, ?_, ?_, ?_⟩
  · refine (mem_settledBy _ _ _ _).mpr (((mem_settledBy _ _ _ _).mp hs).imp_right ?_)
    exact fun h ↦ ⟨(Table.contains_iff _ _).mpr ⟨_, hv⟩, h.2⟩
  · unfold CaughtUp
    cases r with
    | none => trivial
    | some t =>
      intro planned hp
      refine ⟨held, Table.get?_insert_self _ _ _, ?_⟩
      rw [hh, Option.bind_some, hp]
      exact Int32.le_refl _
  · rintro ⟨f, hf, hl⟩
    obtain rfl : _ = f := Option.some.inj (hv.symm.trans hf)
    exact Int32.not_le.mpr ho hl

/-- Who serves a caller that joined, and with what. The caller gets the program of the first
operation, after its own, that releases the document. If that completion ends a compile of the
document that was planned for the version asked for or a newer one, the program holds no older
version; if it does not, a completion that has caught up can serve the caller an older one. -/
theorem joined_reaches_iff_planned (before between : List Call) (last : Call) (uri : Uri)
    (version : Version) (changed : Bool) (ticket : Nat) (snapshot : Snapshot)
    (hcaught : Ledger.AllCaughtUp {}
      (before ++ ⟨.plan uri version false changed, none⟩ :: (between ++ [last])))
    (hjoined : ((Ledger.recordAll {} before).cache.perform
      (.plan uri version false changed)).plan = some (.join ticket))
    (hserved : ⟨ticket, .ok snapshot⟩ ∈ ((Ledger.recordAll {}
      (before ++ ⟨.plan uri version false changed, none⟩ :: between)).cache.perform
        last.operation).settled) :
    let ledger := Ledger.recordAll {} (before ++ ⟨.plan uri version false changed, none⟩ :: between)
    ∃ requested tracked, last.operation = .complete snapshot.program requested tracked ∧
      uri ∈ settledBy snapshot.program requested tracked ∧
      (∀ call ∈ between, ¬ call.operation.Releases uri) ∧
      (ledger.EndsPlanned requested last.ends uri version → snapshot.program.Reaches uri version) ∧
      (¬ ledger.EndsPlanned requested last.ends uri version → ∀ older < version, ∃ stale,
        ledger.CaughtUp ⟨.complete stale requested tracked, last.ends⟩ ∧
        ⟨ticket, .ok ⟨ledger.cache.completed, stale⟩⟩ ∈
          (ledger.cache.perform (.complete stale requested tracked)).settled ∧
        ¬ stale.Reaches uri version) := by
  intro ledger
  set start := (Ledger.recordAll {} before).cache with hstart
  have hcache : ledger.cache = ((start.perform (.plan uri version false changed)).cache).performAll
      (between.map Call.operation) := by
    rw [cache_recordAll, map_append, map_cons, performAll, foldl_append, hstart, cache_recordAll]
    rfl
  have hticketed : Ticketed start := by
    rw [hstart, cache_recordAll]
    exact ticketed_empty.performAll _
  obtain ⟨program, requested, tracked, hlast, rfl⟩ := (served_perform hserved).2 snapshot rfl
  change _ ∈ (ledger.cache.perform last.operation).settled at hserved
  rw [hcache] at hserved
  obtain ⟨hbetween, hreleases, hticket⟩ := served_by_release (hticketed.perform _)
    (mem_tickets_of_join hjoined).2 hserved
  rw [hlast] at hreleases
  rw [← hcache] at hticket
  refine ⟨requested, tracked, hlast, hreleases,
    fun call hcall ↦ hbetween _ (mem_map_of_mem hcall), ?_, ?_⟩
  · rintro ⟨hrequested, planned, hplanned, hle⟩
    have hend : ledger.CaughtUp last := caughtUp_of_append
      (before ++ ⟨.plan uri version false changed, none⟩ :: between) [] (by simpa using hcaught)
    rw [CaughtUp, hlast, hrequested] at hend
    obtain ⟨held, hheld, hcurrent⟩ := hend planned hplanned
    exact ⟨held, hheld, Int32.le_trans hle hcurrent⟩
  · intro hends older holder
    obtain ⟨stale, hstale, hcaughtUp, hreaches⟩ :=
      exists_caughtUp_not_reaches ledger hreleases hends holder
    exact ⟨stale, hcaughtUp, (mem_complete _ _ _ _ _).mpr ⟨rfl, uri, hstale, hticket⟩, hreaches⟩

/-- The program of one script, at some version of it. -/
def programOf (u : Uri) (v : Version) : Program :=
  { scripts := Table.empty.insert u v }

/-- A caller that joined the compile of a second version is served by it, although the compile of
the first version, and one of another script, are still under way. -/
theorem joined_second_version_served :
    let calls : List Call :=
      [⟨.plan chapterUri 1 false true, none⟩, ⟨.plan chapterUri 2 false true, none⟩]
    let others : List Call := [⟨.plan mainUri 7 true true, none⟩]
    let last : Call := ⟨.complete (programOf chapterUri 2) (some chapterUri) fun _ ↦ false, some 1⟩
    Ledger.AllCaughtUp {} (calls ++ ⟨.plan chapterUri 2 false true, none⟩ :: (others ++ [last])) ∧
      (programOf chapterUri 2).Reaches chapterUri 2 := by
  intro calls others last
  have hcaught : Ledger.AllCaughtUp {}
      (calls ++ ⟨.plan chapterUri 2 false true, none⟩ :: (others ++ [last])) := by
    refine ⟨trivial, trivial, trivial, trivial, ?_, trivial⟩
    intro version hplanned
    obtain rfl : (2 : Version) = version := Option.some.inj hplanned
    exact ⟨2, rfl, by decide⟩
  refine ⟨hcaught, ?_⟩
  obtain ⟨requested, tracked, hlast, -, -, hreaches, -⟩ := joined_reaches_iff_planned calls others
    last chapterUri 2 true 0 ⟨0, programOf chapterUri 2⟩ hcaught (by decide)
    (mem_singleton.mpr rfl)
  obtain ⟨-, rfl, -⟩ := Operation.complete.inj hlast
  exact hreaches ⟨rfl, 2, rfl, by decide⟩

/-- A caller that joined the compile of a second version is served by the older compile of the
first, and gets the first version: each completion has caught up with the version that its own
compile was started for, and the caller is served a version older than the one it asked for. -/
theorem joined_second_version_served_first :
    let calls : List Call :=
      [⟨.plan chapterUri 1 false true, none⟩, ⟨.plan chapterUri 2 false true, none⟩]
    let join : Call := ⟨.plan chapterUri 2 false true, none⟩
    let last : Call := ⟨.complete (programOf chapterUri 1) (some chapterUri) fun _ ↦ true, some 0⟩
    Ledger.AllCaughtUp {} (calls ++ join :: ([] ++ [last])) ∧
      ((Ledger.recordAll {} calls).cache.perform join.operation).plan = some (.join 0) ∧
      ⟨0, .ok ⟨0, programOf chapterUri 1⟩⟩ ∈
        ((Ledger.recordAll {} (calls ++ [join])).cache.perform last.operation).settled ∧
      ¬ (programOf chapterUri 1).Reaches chapterUri 2 := by
  intro calls join last
  refine ⟨⟨trivial, trivial, trivial, ?_, trivial⟩, by decide, mem_singleton.mpr rfl, ?_⟩
  · intro version hplanned
    obtain rfl : (1 : Version) = version := Option.some.inj hplanned
    exact ⟨1, rfl, by decide⟩
  · rintro ⟨held, hheld, hle⟩
    obtain rfl : (1 : Version) = held := Option.some.inj hheld
    exact absurd hle (by decide)

end Cache

end StoryScript
