import Mathlib.Data.List.Induction
import StoryScript.Proofs.Cache.Join

/-!
What a cache keeps in step over all its runs: the version that it says was compiled with the program
that it holds, the tickets that wait with the compiles under way, and its counts with the plans made.
A ticket is served once, by the first operation that releases its document, and with what all others
get that wait there (`Cache.ServedOnce`).
-/

namespace StoryScript.Cache

open List

variable {cache : Cache} {ticket : Nat}

/-! ### Invariants of a cache -/

def Operation.isPlan : Operation → Bool
  | .plan _ _ _ _ => true
  | .complete _ _ _ | .abandon _ | .remove _ | .clear => false

/-- Every plan is counted, in one of three ways. -/
theorem counts_perform (cache : Cache) (op : Operation) :
    let counts := (cache.perform op).cache.counts
    counts.hits + counts.compiles + counts.joins =
      cache.counts.hits + cache.counts.compiles + cache.counts.joins +
        if op.isPlan then 1 else 0 := by
  cases op with
  | plan u v f ch =>
    simp only [Cache.perform, Operation.isPlan, if_true]
    obtain ⟨_, -, -, -, hp⟩ | ⟨_, -, -, -, hp⟩ | hp := cache.plan_cases u v f ch
    all_goals
      rw [hp]
      dsimp only
      omega
  | complete p r tr => simp [Cache.perform, Operation.isPlan]
  | abandon u => rfl
  | remove u => rfl
  | clear => rfl

theorem performAll_concat (cache : Cache) (ops : List Operation) (last : Operation) :
    cache.performAll (ops ++ [last]) = ((cache.performAll ops).perform last).cache := by
  rw [performAll, foldl_append]
  rfl

/-- What holds of the empty cache and is kept by each operation holds after all runs. -/
theorem performAll_induction {motive : Cache → Prop} (he : motive empty)
    (hp : ∀ cache op, motive cache → motive (cache.perform op).cache)
    (ops : List Operation) : motive (empty.performAll ops) := by
  induction ops using reverseRecOn with
  | nil => exact he
  | append_singleton l last ih =>
    rw [performAll_concat]
    exact hp _ last ih

theorem counts_performAll (ops : List Operation) :
    let counts := (empty.performAll ops).counts
    counts.hits + counts.compiles + counts.joins = ops.countP Operation.isPlan := by
  induction ops using reverseRecOn with
  | nil => rfl
  | append_singleton l last ih =>
    rw [performAll_concat, countP_append, ← ih, countP_singleton]
    exact counts_perform _ last

theorem joins_le_performAll (cache : Cache) (ops : List Operation) :
    cache.counts.joins ≤ (cache.performAll ops).counts.joins := by
  induction ops using reverseRecOn with
  | nil => exact Nat.le_refl _
  | append_singleton l last ih =>
    rw [performAll_concat]
    exact Nat.le_trans ih (joins_le_perform _ last)

theorem nodup_tickets (ops : List Operation) (u : Uri) :
    ((empty.performAll ops).tickets u).Nodup := by
  induction ops using reverseRecOn with
  | nil => exact nodup_nil
  | append_singleton l last ih =>
    rw [performAll_concat]
    obtain ⟨-, hn⟩ | ⟨-, hs⟩ | ⟨-, hmo, -, -⟩ := (empty.performAll l).tickets_perform last u
    · rw [hn]
      exact nodup_nil
    · rwa [hs]
    · rw [hmo, nodup_append_comm]
      refine nodup_cons.mpr ⟨fun hm ↦ ?_, ih⟩
      exact Nat.lt_irrefl _ ((ticketed_empty.performAll l).issued u _ hm)

/-! ### What a ticket gets -/

/-- What an operation gives to a ticket. -/
def servedTo (cache : Cache) (op : Operation) (ticket : Nat) : List Settlement :=
  (cache.perform op).settled.filter fun settlement ↦ settlement.ticket = ticket

theorem nodup_released (cache : Cache) (op : Operation) : (op.released cache).Nodup := by
  cases op with
  | plan u v f ch => exact nodup_nil
  | complete p r tr => exact nodup_settledBy p r tr
  | abandon u => exact nodup_singleton u
  | remove u => exact nodup_singleton u
  | clear => exact cache.waiting.nodup_keys

theorem servedTo_eq_flatMap (cache : Cache) (op : Operation) (ticket : Nat) :
    cache.servedTo op ticket = (op.released cache).flatMap fun u ↦
      List.replicate ((cache.tickets u).count ticket) ⟨ticket, op.outcome cache u⟩ := by
  rw [servedTo, settled_perform, filter_flatMap]
  refine flatMap_congr fun u _ ↦ ?_
  rw [filter_map]
  exact (congrArg _ (filter_eq ticket)).trans map_replicate

/-- Of the documents that an operation releases, only one that a ticket waits for serves it. -/
theorem replicate_of_not_mem {us : List Uri} (o : Uri → Except Failure Snapshot)
    (h : ∀ u ∈ us, ticket ∉ cache.tickets u) :
    (us.flatMap fun u ↦ List.replicate ((cache.tickets u).count ticket)
      (⟨ticket, o u⟩ : Settlement)) = [] := by
  refine flatMap_eq_nil_iff.mpr fun u hu ↦ ?_
  rw [count_eq_zero.mpr (h u hu)]
  rfl

theorem servedTo_of_not_mem (h : ∀ u, ticket ∉ cache.tickets u) (op : Operation) :
    cache.servedTo op ticket = [] := by
  rw [servedTo_eq_flatMap]
  exact replicate_of_not_mem _ fun u _ ↦ h u

theorem servedTo_of_mem (h : Ticketed cache) {u : Uri} (hnod : (cache.tickets u).Nodup)
    (ht : ticket ∈ cache.tickets u) (op : Operation) :
    cache.servedTo op ticket =
      if u ∈ op.released cache then [⟨ticket, op.outcome cache u⟩] else [] := by
  rw [servedTo_eq_flatMap]
  have hn : ∀ us : List Uri, u ∉ us → ∀ o ∈ us, ticket ∉ cache.tickets o :=
    fun us hu o ho hm ↦ hu (h.single u o ticket ht hm ▸ ho)
  split_ifs with hm
  · obtain ⟨l, r, hs⟩ := append_of_mem hm
    have hno := nodup_released cache op
    rw [hs] at hno ⊢
    obtain ⟨hot, -⟩ := nodup_cons.mp (nodup_middle.mp hno)
    obtain ⟨hb, ha⟩ := not_or.mp (mt mem_append.mpr hot)
    rw [flatMap_append, flatMap_cons, replicate_of_not_mem _ (hn l hb),
      replicate_of_not_mem _ (hn r ha), count_eq_one_of_mem hnod ht]
    rfl
  · exact replicate_of_not_mem _ (hn _ hm)

/-- What becomes of a ticket that a plan has joined a compile with. It waits until the document is
released. The operation that releases the document gives the same outcome to all that wait for it,
each one once, and no other operation gives the ticket anything. -/
structure ServedOnce (before : List Operation) (join : Operation) (uri : Uri) (ticket : Nat) :
    Prop where
  queued : ∀ between, ticket ∈ (empty.performAll (before ++ join :: between)).tickets uri ↔
    ∀ operation ∈ between, ¬ operation.Releases uri
  served : ∀ between last, last.Releases uri → (∀ operation ∈ between, ¬ operation.Releases uri) →
    ∃ outcome, ∀ other ∈ (empty.performAll (before ++ join :: between)).tickets uri,
      (empty.performAll (before ++ join :: between)).servedTo last other = [⟨other, outcome⟩]
  unserved : ∀ between last, ¬ (last.Releases uri ∧
      ∀ operation ∈ between, ¬ operation.Releases uri) →
    (empty.performAll (before ++ join :: between)).servedTo last ticket = []
  early : ∀ front, front <+: before → ∀ last, (empty.performAll front).servedTo last ticket = []

theorem servedOnce_of_join {l : List Operation} {u : Uri} {v : Version} {f ch : Bool}
    (h : ((empty.performAll l).perform (.plan u v f ch)).plan =
      some (.join ticket)) : ServedOnce l (.plan u v f ch) u ticket := by
  obtain ⟨hi, hw⟩ := mem_tickets_of_join h
  have ht := ticketed_empty.performAll l
  have hr : ∀ between, _ := waits_or_spent (ht.perform _) hw
  have hwh : ∀ between, empty.performAll (l ++ .plan u v f ch :: between) =
      ((empty.performAll l).perform (.plan u v f ch)).cache.performAll
        between := by
    intro between
    rw [performAll, foldl_append]
    rfl
  simp only [← hwh] at hr
  have hse : ∀ ops last, ∀ o ∈ (empty.performAll ops).tickets u, _ :=
    fun ops last o ho ↦ servedTo_of_mem (ticketed_empty.performAll ops)
      (nodup_tickets ops u) ho last
  constructor
  · intro between
    obtain ⟨hk, hm⟩ | ⟨⟨op, hop, hrel⟩, hs⟩ := hr between
    · exact iff_of_true hm hk
    · exact iff_of_false (hs.2 u) fun hk ↦ hk op hop hrel
  · intro between last hl _
    refine ⟨_, fun o ho ↦ (hse _ last o ho).trans (if_pos ?_)⟩
    exact (mem_released_iff ho last).mpr hl
  · intro between last hl
    obtain ⟨hk, hm⟩ | ⟨-, hs⟩ := hr between
    · refine (hse _ last ticket hm).trans (if_neg fun hre ↦ ?_)
      exact hl ⟨(mem_released_iff hm last).mp hre, hk⟩
    · exact servedTo_of_not_mem hs.2 last
  · rintro fr ⟨r, rfl⟩ last
    refine servedTo_of_not_mem (fun o hm ↦ ?_) last
    have hlt := (ticketed_empty.performAll fr).issued o ticket hm
    have hle := (empty.performAll fr).joins_le_performAll r
    rw [hi, performAll, foldl_append] at hlt
    exact absurd (Nat.lt_of_lt_of_le hlt hle) (Nat.lt_irrefl _)

/-- A document of which a cache holds the same as another cache. -/
def SameOf (u : Uri) (x y : Cache) : Prop :=
  x.state? u = y.state? u ∧ x.tickets u = y.tickets u

/-- The books of a cache, after any run of it. -/
theorem books_balance (operations : List Operation) :
    let cache := empty.performAll operations
    cache.Versioned ∧ cache.Awaited ∧
    (∀ uri version force changed ticket,
      (cache.perform (.plan uri version force changed)).plan = some (.join ticket) →
        ServedOnce operations (.plan uri version force changed) uri ticket) ∧
    cache.counts.hits + cache.counts.compiles + cache.counts.joins =
      operations.countP Operation.isPlan ∧
    ∀ (cache : Cache) (snapshot : Snapshot) (uri other : Uri), uri ≠ other →
      SameOf other (cache.abandon uri).2 cache ∧ SameOf other (cache.remove uri).2 cache ∧
        SameOf other (cache.settle snapshot uri).2 cache := by
  refine ⟨performAll_induction (fun _ ↦ rfl) (fun _ operation h ↦ h.perform operation) operations,
    performAll_induction (fun _ h ↦ absurd rfl h) (fun _ operation h ↦ h.perform operation) operations,
    fun _ _ _ _ _ h ↦ servedOnce_of_join h, counts_performAll operations, ?_⟩
  intro cache snapshot uri other hne
  simp only [SameOf, state?_abandon, tickets_abandon, state?_remove, tickets_remove, state?_settle,
    tickets_settle, if_neg hne, and_self]

/-- Two callers join the compile of a script, and its program serves both. -/
theorem books_balance_joinedTwice :
    let plan : Operation := .plan chapterUri 1 false true
    let last : Operation := .complete (programOf chapterUri 1) (some chapterUri) fun _ ↦ false
    (empty.performAll [plan, plan, plan]).tickets chapterUri = [0, 1] ∧
      ServedOnce [plan, plan] plan chapterUri 1 ∧
      ∃ outcome, (empty.performAll [plan, plan, plan]).servedTo last 0 = [⟨0, outcome⟩] ∧
        (empty.performAll [plan, plan, plan]).servedTo last 1 = [⟨1, outcome⟩] := by
  intro plan last
  have htickets : (empty.performAll [plan, plan, plan]).tickets chapterUri = [0, 1] := by decide
  have hserved := (books_balance [plan, plan]).2.2.1 chapterUri 1 false true 1 (by decide)
  have hreleases : last.Releases chapterUri := (mem_settledBy _ _ _ _).mpr (Or.inl rfl)
  obtain ⟨outcome, houtcome⟩ := hserved.served [] last hreleases nofun
  refine ⟨htickets, hserved, outcome, houtcome 0 ?_, houtcome 1 ?_⟩
  all_goals
    change _ ∈ (empty.performAll [plan, plan, plan]).tickets chapterUri
    rw [htickets]
    decide

end StoryScript.Cache
