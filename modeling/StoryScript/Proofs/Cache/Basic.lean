import Mathlib.Data.List.Nodup
import StoryScript.Cache
import StoryScript.Proofs.Table

/-!
What each operation of a cache leaves behind, document by document: the state that the cache has of
it (`Cache.state?`) and the tickets that wait for it (`Cache.tickets`). Every later statement about
runs of a cache goes through these equations and through `Cache.plan_cases`, which says once in
which three ways a plan can end.
-/

namespace StoryScript.Cache

open List Table

/-- The state of a document that a program has been given to. -/
def settledState (s : Snapshot) (u : Uri) : ProgramState :=
  { snapshot := some s, compiled := s.program.versionOf? u }

/-- A plan is answered from the cache, joins a compile that is under way, or starts one. -/
theorem plan_cases (c : Cache) (u : Uri) (v : Version) (fo ch : Bool) :
    (∃ s, fo = false ∧ ch = false ∧ c.snapshot? u = some s ∧ c.plan u v fo ch = (.cached s, { c with
            states := c.states.insert u ((c.state? u).getD {})
            counts := { c.counts with hits := c.counts.hits + 1 } })) ∨
    (∃ rn, fo = false ∧ c.compiling? u = some rn ∧ v ≤ rn ∧ c.plan u v fo ch =
        (.join c.counts.joins, { c with
            states := c.states.insert u ((c.state? u).getD {})
            waiting := c.waiting.insert u (c.tickets u ++ [c.counts.joins])
            counts := { c.counts with joins := c.counts.joins + 1 } })) ∨
    c.plan u v fo ch =
      (.compile, { c with
          states := c.states.insert u { (c.state? u).getD {} with compiling := some v }
          counts := { c.counts with compiles := c.counts.compiles + 1 } }) := by
  have hs : c.snapshot? u = ((c.state? u).getD {}).snapshot := by
    rw [snapshot?]
    cases c.state? u <;> rfl
  have hc : c.compiling? u = ((c.state? u).getD {}).compiling := by
    rw [compiling?]
    cases c.state? u <;> rfl
  unfold plan
  rw [hs, hc]
  generalize (c.state? u).getD {} = st
  dsimp only
  cases hfr : if (fo || ch) = true then none else st.snapshot with
  | some s =>
    obtain ⟨hq, hst⟩ := Option.ite_none_left_eq_some.mp hfr
    have hf : fo = false ∧ ch = false := by
      cases fo <;> cases ch <;> simp_all
    exact .inl ⟨s, hf.1, hf.2, hst, rfl⟩
  | none =>
    by_cases hj : (!fo && st.compiling.any fun rn ↦ v ≤ rn) = true
    · rw [if_pos hj]
      obtain ⟨hfo, hr⟩ := Bool.and_eq_true_iff.mp hj
      obtain ⟨rn, hco, hl⟩ := (Option.any_eq_true _ _).mp hr
      exact .inr (Or.inl ⟨rn, by simpa using hfo, hco, by simpa using hl, rfl⟩)
    · rw [if_neg hj]
      exact .inr (Or.inr rfl)

section Plan

variable (c : Cache) (u : Uri) (v : Version) (fo ch : Bool)

theorem state?_plan_of_ne {o : Uri} (h : u ≠ o) : (c.plan u v fo ch).2.state? o = c.state? o := by
  obtain ⟨_, -, -, -, hp⟩ | ⟨_, -, -, -, hp⟩ | hp := c.plan_cases u v fo ch
  all_goals
    rw [hp]
    exact get?_insert_of_ne _ _ h

/-- Planning gives a document a state. -/
theorem state?_plan_self : ∃ rn, (c.plan u v fo ch).2.state? u =
      some { (c.state? u).getD {} with compiling := rn } ∧
    rn = if (c.plan u v fo ch).1 = .compile then some v
      else c.compiling? u := by
  have hc : c.compiling? u = ((c.state? u).getD {}).compiling := by
    rw [compiling?]
    cases c.state? u <;> rfl
  obtain ⟨_, -, -, -, hp⟩ | ⟨_, -, -, -, hp⟩ | hp := c.plan_cases u v fo ch
  · rw [hp]
    exact ⟨_, get?_insert_self _ _ _, hc.symm⟩
  · rw [hp]
    exact ⟨_, get?_insert_self _ _ _, hc.symm⟩
  · rw [hp]
    exact ⟨_, get?_insert_self _ _ _, rfl⟩

/-- Planning changes nothing that a state says of programs. -/
theorem bind_plan (o : Uri) {α : Type} {f : ProgramState → Option α} (hn : f {} = none)
    (hf : ∀ st rn, f { st with compiling := rn } = f st) :
    ((c.plan u v fo ch).2.state? o).bind f = (c.state? o).bind f := by
  by_cases h : u = o
  · subst h
    obtain ⟨rn, hs, -⟩ := c.state?_plan_self u v fo ch
    rw [hs]
    cases c.state? u with
    | none => exact (hf _ _).trans hn
    | some st => exact hf _ _
  · rw [state?_plan_of_ne _ _ _ _ _ h]

theorem snapshot?_plan (o : Uri) : (c.plan u v fo ch).2.snapshot? o = c.snapshot? o :=
  bind_plan c u v fo ch o rfl fun _ _ ↦ rfl

theorem compiled?_plan (o : Uri) : (c.plan u v fo ch).2.compiled? o = c.compiled? o :=
  bind_plan c u v fo ch o rfl fun _ _ ↦ rfl

theorem compiling?_plan (o : Uri) :
    (c.plan u v fo ch).2.compiling? o = if u = o ∧ (c.plan u v fo ch).1 = .compile then some v
      else c.compiling? o := by
  by_cases h : u = o
  · subst h
    obtain ⟨rn, hs, hr⟩ := c.state?_plan_self u v fo ch
    rw [compiling?, hs]
    simpa using hr
  · rw [compiling?, compiling?, state?_plan_of_ne _ _ _ _ _ h, if_neg fun hand ↦ h hand.1]

/-- A plan adds a ticket only while the document is being compiled. -/
theorem tickets_plan (o : Uri) :
    (c.plan u v fo ch).2.tickets o = c.tickets o ∨ (u = o ∧ (c.compiling? u).isSome = true ∧
        (c.plan u v fo ch).1 ≠ .compile) := by
  obtain ⟨_, -, -, -, hp⟩ | ⟨rn, -, hr, -, hp⟩ | hp := c.plan_cases u v fo ch
  · rw [hp]
    exact .inl rfl
  · by_cases h : u = o
    · exact .inr ⟨h, by rw [hr]; rfl, by rw [hp]; simp⟩
    · rw [hp]
      exact .inl (congrArg (Option.getD · []) (get?_insert_of_ne _ _ h))
  · rw [hp]
    exact .inl rfl

@[simp] theorem completed_plan : (c.plan u v fo ch).2.completed = c.completed := by
  obtain ⟨_, -, -, -, hp⟩ | ⟨_, -, -, -, hp⟩ | hp := c.plan_cases u v fo ch
  all_goals rw [hp]

end Plan

section Settle

variable (c : Cache) (s : Snapshot)

theorem state?_settle (u o : Uri) :
    (c.settle s u).2.state? o = if u = o then some (settledState s u) else c.state? o :=
  get?_insert _ _ _ _

theorem tickets_settle (u o : Uri) :
    (c.settle s u).2.tickets o = if u = o then [] else c.tickets o := by
  simp only [tickets, settle, get?_erase]
  by_cases h : u = o <;> simp [h]

/-- What one document is given when it is settled, each is given when several are. -/
theorem read_settleAll {α : Type} {read : Cache → Uri → α} {given : Uri → α}
    (hs : ∀ c u o, read (settle c s u).2 o =
      if u = o then given u else read c o) (us : List Uri) (o : Uri) :
    read (c.settleAll s us).2 o = if o ∈ us then given o else read c o := by
  induction us generalizing c with
  | nil => rfl
  | cons u tl ih =>
    change read ((c.settle s u).2.settleAll s tl).2 o = _
    rw [ih, hs]
    by_cases hr : o ∈ tl
    · simp [hr]
    · by_cases hu : u = o
      · simp [hu]
      · simp [hr, hu, Ne.symm hu]

/-- Giving a program to documents serves the tickets that wait for them, one document after
another. -/
theorem settled_settleAll {us : List Uri} (h : us.Nodup) :
    (c.settleAll s us).1 = us.flatMap fun u ↦ (c.tickets u).map fun t ↦ ⟨t, .ok s⟩ := by
  induction us generalizing c with
  | nil => rfl
  | cons u tl ih =>
    obtain ⟨hu, hr⟩ := nodup_cons.mp h
    change _ ++ ((c.settle s u).2.settleAll s tl).1 = _
    rw [ih _ hr, flatMap_cons]
    congr 1
    refine flatMap_congr fun o ho ↦ ?_
    have hn : u ≠ o := fun heq ↦ hu (heq ▸ ho)
    rw [tickets_settle, if_neg hn]

@[simp] theorem counts_settleAll (us : List Uri) : (c.settleAll s us).2.counts = c.counts := by
  induction us generalizing c with
  | nil => rfl
  | cons u tl ih => exact ih (c.settle s u).2

@[simp] theorem completed_settleAll (us : List Uri) :
    (c.settleAll s us).2.completed = c.completed := by
  induction us generalizing c with
  | nil => rfl
  | cons u tl ih => exact ih (c.settle s u).2

end Settle

section

variable (p : Program) (r : Option Uri) (tr : Uri → Bool)

/-- A completed program settles its tracked scripts and the document that was asked for. -/
theorem mem_settledBy (u : Uri) : u ∈ settledBy p r tr ↔
      r = some u ∨ (p.covers u = true ∧ tr u = true) := by
  have hk : u ∈ p.scripts.keys ↔ p.covers u = true := by
    rw [Table.mem_keys_iff, Program.covers, Table.contains_iff]
  simp only [settledBy, mem_append, mem_filter, Option.mem_toList, hk,
    Bool.or_eq_true, decide_eq_true_eq]
  constructor
  · rintro (⟨hc, hr | ht⟩ | ⟨hr, _⟩)
    · exact .inl hr
    · exact .inr ⟨hc, ht⟩
    · exact .inl hr
  · rintro (hr | ⟨hc, ht⟩)
    · by_cases hc : p.covers u = true
      · exact .inl ⟨hc, Or.inl hr⟩
      · exact .inr ⟨hr, fun h ↦ hc h.1⟩
    · exact .inl ⟨hc, Or.inr ht⟩

theorem nodup_settledBy : (settledBy p r tr).Nodup := by
  refine nodup_append'.mpr ⟨p.scripts.nodup_keys.filter _, ?_, ?_⟩
  · cases r with
    | none => exact nodup_nil
    | some u => exact (nodup_singleton u).filter _
  · intro u hs hr
    simpa [hs] using (mem_filter.mp hr).2

end

section Complete

variable (c : Cache) (p : Program) (r : Option Uri) (tr : Uri → Bool)

theorem state?_complete (u : Uri) :
    (c.complete p r tr).2.state? u = if u ∈ settledBy p r tr then
        some (settledState ⟨c.completed, p⟩ u)
      else c.state? u :=
  read_settleAll _ _ (fun c ↦ c.state?_settle _) _ _

theorem tickets_complete (u : Uri) :
    (c.complete p r tr).2.tickets u = if u ∈ settledBy p r tr then [] else c.tickets u :=
  read_settleAll _ _ (fun c ↦ c.tickets_settle _) _ _

theorem mem_complete (settlement : Settlement) :
    settlement ∈ (c.complete p r tr).1 ↔ settlement.result = .ok ⟨c.completed, p⟩ ∧
        ∃ u ∈ settledBy p r tr, settlement.ticket ∈ c.tickets u := by
  rw [complete, settled_settleAll _ _ (nodup_settledBy p r tr), mem_flatMap]
  constructor
  · rintro ⟨u, hu, hs⟩
    obtain ⟨t, ht, rfl⟩ := mem_map.mp hs
    exact ⟨rfl, u, hu, ht⟩
  · rintro ⟨hr, u, hu, ht⟩
    exact ⟨u, hu, mem_map.mpr ⟨settlement.ticket, ht, by rw [← hr]⟩⟩

theorem compiling?_complete (u : Uri) :
    (c.complete p r tr).2.compiling? u = if u ∈ settledBy p r tr then none else c.compiling? u := by
  rw [compiling?, state?_complete]
  split_ifs <;> rfl

theorem snapshot?_complete (u : Uri) :
    (c.complete p r tr).2.snapshot? u = if u ∈ settledBy p r tr then some ⟨c.completed, p⟩
      else c.snapshot? u := by
  rw [snapshot?, state?_complete]
  split_ifs <;> rfl

theorem compiled?_complete (u : Uri) :
    (c.complete p r tr).2.compiled? u = if u ∈ settledBy p r tr then p.versionOf? u
      else c.compiled? u := by
  rw [compiled?, state?_complete]
  split_ifs <;> rfl

@[simp] theorem counts_complete : (c.complete p r tr).2.counts = c.counts :=
  counts_settleAll _ _ _

@[simp] theorem completed_complete : (c.complete p r tr).2.completed = c.completed + 1 :=
  completed_settleAll _ _ _

end Complete

section Abandon

variable (c : Cache) (u o : Uri)

theorem state?_abandon : (c.abandon u).2.state? o =
    if u = o then (c.state? u).map fun st ↦ { st with compiling := none }
    else c.state? o := by
  unfold abandon
  cases hs : c.state? u with
  | some st => exact get?_insert _ _ _ _
  | none =>
    by_cases h : u = o
    · subst h
      rw [if_pos rfl]
      exact hs
    · rw [if_neg h]
      rfl

theorem tickets_abandon : (c.abandon u).2.tickets o = if u = o then [] else c.tickets o := by
  simp only [tickets, abandon, get?_erase]
  by_cases h : u = o <;> simp [h]

theorem compiling?_abandon : (c.abandon u).2.compiling? o =
    if u = o then none else c.compiling? o := by
  rw [compiling?, state?_abandon]
  split_ifs
  · cases c.state? u <;> rfl
  · rfl

/-- Giving up a compile takes no program away. -/
theorem snapshot?_abandon : (c.abandon u).2.snapshot? o = c.snapshot? o := by
  rw [snapshot?, state?_abandon]
  split_ifs with h
  · rw [← h, snapshot?]
    cases c.state? u <;> rfl
  · rfl

theorem compiled?_abandon : (c.abandon u).2.compiled? o = c.compiled? o := by
  rw [compiled?, state?_abandon]
  split_ifs with h
  · rw [← h, compiled?]
    cases c.state? u <;> rfl
  · rfl

theorem state?_remove : (c.remove u).2.state? o = if u = o then none else c.state? o :=
  get?_erase _ _ _

theorem compiling?_remove : (c.remove u).2.compiling? o =
    if u = o then none else c.compiling? o := by
  rw [compiling?, state?_remove]
  split_ifs <;> rfl

theorem tickets_remove : (c.remove u).2.tickets o = if u = o then [] else c.tickets o := by
  simp only [tickets, remove, get?_erase]
  by_cases h : u = o <;> simp [h]

end Abandon

end StoryScript.Cache
