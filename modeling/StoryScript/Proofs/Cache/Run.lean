import StoryScript.Proofs.Cache.Basic

/-!
Runs of a cache. An `Operation` is one call of it, and `Cache.perform` what the call does. A ticket
waits for one document only (`Ticketed`), from the plan that joined a compile to the first
operation that releases the document; only that operation serves it (`served_by_release`).
-/

namespace StoryScript.Cache

open List

variable {cache : Cache} {ticket : Nat} {uri : Uri} {op : Operation} {settlement : Settlement}

/-- One call of a cache. -/
inductive Operation where
  | plan (uri : Uri) (version : Version) (force changed : Bool)
  | complete (program : Program) (requested : Option Uri) (tracked : Uri → Bool)
  | abandon (uri : Uri)
  | remove (uri : Uri)
  | clear

/-- What an operation gives: the decision of a plan, what tickets get, and the next cache. -/
structure Reply where
  plan : Option Plan := none
  settled : List Settlement := []
  cache : Cache

def perform (cache : Cache) : Operation → Reply
  | .plan uri v force changed =>
    let (plan, cache) := cache.plan uri v force changed
    { plan := some plan, cache }
  | .complete p r tracked =>
    let (settled, cache) := cache.complete p r tracked
    { settled, cache }
  | .abandon uri =>
    let (settled, cache) := cache.abandon uri
    { settled, cache }
  | .remove uri =>
    let (settled, cache) := cache.remove uri
    { settled, cache }
  | .clear =>
    let (settled, cache) := cache.clear
    { settled, cache }

/-- The cache after operations. -/
def performAll (cache : Cache) (ops : List Operation) : Cache :=
  ops.foldl (fun cache op ↦ (cache.perform op).cache) cache

section Invariants

/-- The version of a document that counts as compiled is the one in its last program. -/
def Versioned (cache : Cache) : Prop :=
  ∀ uri, cache.compiled? uri = (cache.snapshot? uri).bind fun s ↦ s.program.versionOf? uri

theorem Versioned.perform (h : Versioned cache) (op : Operation) :
    Versioned (cache.perform op).cache := by
  intro uri
  cases op with
  | plan t version force changed =>
    simp only [Cache.perform, compiled?_plan, snapshot?_plan]
    exact h uri
  | complete p requested tracked =>
    simp only [Cache.perform, compiled?_complete, snapshot?_complete]
    split_ifs
    · rfl
    · exact h uri
  | abandon t =>
    simp only [Cache.perform, compiled?_abandon, snapshot?_abandon]
    exact h uri
  | remove t =>
    simp only [Cache.perform, compiled?, snapshot?, state?_remove]
    split_ifs
    · rfl
    · exact h uri
  | clear => rfl

/-- Only documents that are being compiled are waited for. -/
def Awaited (cache : Cache) : Prop :=
  ∀ uri, cache.tickets uri ≠ [] → (cache.compiling? uri).isSome = true

theorem Awaited.perform (h : Awaited cache) (op : Operation) :
    Awaited (cache.perform op).cache := by
  intro uri hw
  cases op with
  | plan t v force changed =>
    simp only [Cache.perform, compiling?_plan] at hw ⊢
    split_ifs
    · rfl
    · obtain hs | ⟨rfl, hc, -⟩ := cache.tickets_plan t v force changed uri
      · exact h uri (hs ▸ hw)
      · exact hc
  | complete program requested tracked =>
    simp only [Cache.perform, tickets_complete, compiling?_complete] at hw ⊢
    split_ifs at hw ⊢
    · exact absurd rfl hw
    · exact h uri hw
  | abandon t =>
    simp only [Cache.perform, tickets_abandon, compiling?_abandon] at hw ⊢
    split_ifs at hw ⊢
    · exact absurd rfl hw
    · exact h uri hw
  | remove t =>
    simp only [Cache.perform, tickets_remove, compiling?_remove] at hw ⊢
    split_ifs at hw ⊢
    · exact absurd rfl hw
    · exact h uri hw
  | clear => exact absurd rfl hw

end Invariants

/-- Whether the wait for a document ends with an operation: the document is settled or given up. -/
def Operation.Releases (uri : Uri) : Operation → Prop
  | .plan _ _ _ _ => False
  | .complete p r tr => uri ∈ settledBy p r tr
  | .abandon o | .remove o => o = uri
  | .clear => True

/-- What an operation leaves of the tickets that wait for a document. Only a plan adds one, the next
that was not issued yet, and then the tickets of other documents stay. -/
theorem tickets_perform (cache : Cache) (op : Operation) (uri : Uri) :
    (op.Releases uri ∧ (cache.perform op).cache.tickets uri = []) ∨
    (¬ op.Releases uri ∧ (cache.perform op).cache.tickets uri = cache.tickets uri) ∨
    (¬ op.Releases uri ∧
      (cache.perform op).cache.tickets uri = cache.tickets uri ++ [cache.counts.joins] ∧
      (cache.perform op).cache.counts.joins = cache.counts.joins + 1 ∧
      ∀ o, o ≠ uri → (cache.perform op).cache.tickets o = cache.tickets o) := by
  cases op with
  | plan t version force changed =>
    refine .inr ?_
    simp only [perform, Operation.Releases]
    obtain ⟨_, _, _, _, hp⟩ | ⟨_, _, _, _, hp⟩ | hp := cache.plan_cases t version force changed
    · rw [hp]
      exact .inl ⟨not_false, rfl⟩
    · rw [hp]
      have ht : ∀ o, ({ cache with
          states := cache.states.insert t ((cache.state? t).getD {})
          waiting := cache.waiting.insert t (cache.tickets t ++ [cache.counts.joins])
          counts := { cache.counts with joins := cache.counts.joins + 1 } } : Cache).tickets o =
            if t = o then cache.tickets t ++ [cache.counts.joins]
            else cache.tickets o := by
        intro o
        simp only [tickets, Table.get?_insert]
        by_cases h : t = o <;> simp [h]
      by_cases hta : t = uri
      · subst hta
        refine .inr ⟨not_false, by rw [ht, if_pos rfl], rfl, fun o ho ↦ ?_⟩
        rw [ht, if_neg (Ne.symm ho)]
      · exact .inl ⟨not_false, by rw [ht, if_neg hta]⟩
    · rw [hp]
      exact .inl ⟨not_false, rfl⟩
  | complete p requested tracked =>
    simp only [perform, Operation.Releases, tickets_complete]
    by_cases h : uri ∈ settledBy p requested tracked <;> simp [h]
  | abandon o =>
    simp only [perform, Operation.Releases, tickets_abandon]
    by_cases h : o = uri <;> simp [h]
  | remove o =>
    simp only [perform, Operation.Releases, tickets_remove]
    by_cases h : o = uri <;> simp [h]
  | clear => exact .inl ⟨trivial, rfl⟩

theorem joins_le_perform (cache : Cache) (op : Operation) :
    cache.counts.joins ≤ (cache.perform op).cache.counts.joins := by
  cases op with
  | plan uri v force changed =>
    simp only [perform]
    obtain ⟨_, _, _, _, hp⟩ | ⟨_, _, _, _, hp⟩ | hp := cache.plan_cases uri v force changed
    · simp [hp]
    · simp [hp]
    · simp [hp]
  | complete program requested tracked => simp [perform]
  | abandon uri => exact Nat.le_refl _
  | remove uri => exact Nat.le_refl _
  | clear => exact Nat.le_refl _

/-- The documents that an operation releases, of those that are waited for. -/
def Operation.released (cache : Cache) : Operation → List Uri
  | .plan _ _ _ _ => []
  | .complete p r tr => settledBy p r tr
  | .abandon uri | .remove uri => [uri]
  | .clear => cache.waiting.keys

/-- What an operation gives to those that wait for a document it releases. -/
def Operation.outcome (cache : Cache) (uri : Uri) : Operation → Except Failure Snapshot
  | .complete p _ _ => .ok ⟨cache.completed, p⟩
  | .plan _ _ _ _ | .abandon _ | .remove _ | .clear => .error (.abandoned uri.text)

/-- An operation serves the tickets of the documents it releases, one document after another. -/
theorem settled_perform (cache : Cache) (op : Operation) :
    (cache.perform op).settled = (op.released cache).flatMap fun uri ↦
      (cache.tickets uri).map fun ticket ↦ ⟨ticket, op.outcome cache uri⟩ := by
  cases op with
  | plan uri v force changed => rfl
  | complete p r tracked =>
    exact settled_settleAll _ _ (nodup_settledBy p r tracked)
  | abandon uri => exact (append_nil _).symm
  | remove uri => exact (append_nil _).symm
  | clear => rfl

theorem mem_released_iff (h : ticket ∈ cache.tickets uri) (op : Operation) :
    uri ∈ op.released cache ↔ op.Releases uri := by
  cases op with
  | plan t v f ch => exact iff_of_false not_mem_nil not_false
  | complete p r tr => exact Iff.rfl
  | abandon t => exact mem_singleton.trans eq_comm
  | remove t => exact mem_singleton.trans eq_comm
  | clear =>
    refine iff_of_true ((Table.mem_keys_iff _ _).mpr ?_) trivial
    rw [tickets] at h
    cases hg : cache.waiting.get? uri with
    | none => simp [hg] at h
    | some tickets => exact ⟨tickets, rfl⟩

/-- An operation serves only tickets that wait for a document it releases, and with a program only
if it completes that program. -/
theorem served_perform (h : settlement ∈ (cache.perform op).settled) :
    (∃ uri, op.Releases uri ∧ settlement.ticket ∈ cache.tickets uri) ∧
    ∀ s, settlement.result = .ok s → ∃ p r tr, op = .complete p r tr ∧
        s = ⟨cache.completed, p⟩ := by
  rw [settled_perform] at h
  obtain ⟨uri, hu, hs⟩ := mem_flatMap.mp h
  obtain ⟨ticket, ht, rfl⟩ := mem_map.mp hs
  refine ⟨⟨uri, (mem_released_iff ht op).mp hu, ht⟩, fun s ho ↦ ?_⟩
  cases op with
  | complete p r tr =>
    exact ⟨p, r, tr, rfl, (Except.ok.inj ho).symm⟩
  | plan | abandon | remove | clear => cases ho

/-- Tickets are issued in turn, and each waits for one document. -/
structure Ticketed (cache : Cache) : Prop where
  issued : ∀ uri, ∀ ticket ∈ cache.tickets uri, ticket < cache.counts.joins
  single : ∀ first second, ∀ ticket ∈ cache.tickets first,
    ticket ∈ cache.tickets second → first = second

theorem ticketed_empty : Ticketed empty :=
  ⟨fun _ _ h ↦ by simp [tickets, empty] at h, fun _ _ _ h ↦ by simp [tickets, empty] at h⟩

theorem Ticketed.perform (h : Ticketed cache) (op : Operation) :
    Ticketed (cache.perform op).cache := by
  have hj := cache.joins_le_perform op
  -- A ticket that waits after the operation waited before it, or is the one just issued.
  have ho : ∀ uri, ∀ ticket ∈ (cache.perform op).cache.tickets uri,
      ticket ∈ cache.tickets uri ∨ (ticket = cache.counts.joins ∧
        (cache.perform op).cache.counts.joins = cache.counts.joins + 1 ∧
        ∀ o, o ≠ uri → (cache.perform op).cache.tickets o = cache.tickets o) := by
    intro uri ticket ht
    obtain ⟨-, hno⟩ | ⟨-, hsa⟩ | ⟨-, hm, hc, hot⟩ := cache.tickets_perform op uri
    · simp [hno] at ht
    · exact .inl (hsa ▸ ht)
    · rw [hm, mem_append, mem_singleton] at ht
      exact ht.imp_right fun heq ↦ ⟨heq, hc, hot⟩
  constructor
  · intro uri ticket ht
    rcases ho uri ticket ht with hw | ⟨heq, hc, -⟩
    · exact Nat.lt_of_lt_of_le (h.issued uri ticket hw) hj
    · omega
  · intro x y ticket hf hs
    by_contra hn
    rcases ho x ticket hf with hw | ⟨heq, -, hot⟩
    · rcases ho y ticket hs with hw' | ⟨he', -, -⟩
      · exact hn (h.single x y ticket hw hw')
      · exact absurd (h.issued x ticket hw) (by omega)
    · rw [hot y (Ne.symm hn)] at hs
      exact absurd (h.issued y ticket hs) (by omega)

theorem Ticketed.performAll (h : Ticketed cache) (ops : List Operation) :
    Ticketed (cache.performAll ops) := by
  induction ops generalizing cache with
  | nil => exact h
  | cons op r ih => exact ih (h.perform op)

/-- A ticket that has been issued and waits for nothing any more. -/
def Spent (cache : Cache) (ticket : Nat) : Prop :=
  ticket < cache.counts.joins ∧ ∀ uri, ticket ∉ cache.tickets uri

theorem Spent.perform (h : Spent cache ticket) (op : Operation) :
    Spent (cache.perform op).cache ticket := by
  refine ⟨Nat.lt_of_lt_of_le h.1 (cache.joins_le_perform op), fun uri ht ↦ ?_⟩
  obtain ⟨-, hn⟩ | ⟨-, hs⟩ | ⟨-, hm, -, -⟩ := cache.tickets_perform op uri
  · simp [hn] at ht
  · exact h.2 uri (hs ▸ ht)
  · rw [hm, mem_append, mem_singleton] at ht
    rcases ht with ht | rfl
    · exact h.2 uri ht
    · exact absurd h.1 (Nat.lt_irrefl _)

theorem Spent.performAll (h : Spent cache ticket) (ops : List Operation) :
    Spent (cache.performAll ops) ticket := by
  induction ops generalizing cache with
  | nil => exact h
  | cons op r ih => exact ih (h.perform op)

/-- Releasing a document spends the tickets that wait for it. -/
theorem spent_of_releases (h : Ticketed cache) (hr : op.Releases uri)
    (ht : ticket ∈ cache.tickets uri) :
    Spent (cache.perform op).cache ticket := by
  have hi := h.issued uri ticket ht
  refine ⟨Nat.lt_of_lt_of_le hi (cache.joins_le_perform op), fun o ho ↦ ?_⟩
  obtain ⟨-, hn⟩ | ⟨hk, hs⟩ | ⟨hk, hm, -, -⟩ := cache.tickets_perform op o
  · simp [hn] at ho
  · rw [hs] at ho
    exact hk (h.single uri o ticket ht ho ▸ hr)
  · rw [hm, mem_append, mem_singleton] at ho
    rcases ho with ho | rfl
    · exact hk (h.single uri o ticket ht ho ▸ hr)
    · exact absurd hi (Nat.lt_irrefl _)

/-- A ticket waits as long as its document is not released. -/
theorem mem_tickets_perform (hk : ¬ op.Releases uri) (ht : ticket ∈ cache.tickets uri) :
    ticket ∈ (cache.perform op).cache.tickets uri := by
  obtain ⟨hr, -⟩ | ⟨-, hs⟩ | ⟨-, hm, -, -⟩ := cache.tickets_perform op uri
  · exact absurd hr hk
  · exact hs ▸ ht
  · exact hm ▸ mem_append_left _ ht

/-- A ticket waits until its document is released, and is spent from then on. -/
theorem waits_or_spent (h : Ticketed cache) (ht : ticket ∈ cache.tickets uri)
    (ops : List Operation) :
    ((∀ op ∈ ops, ¬ op.Releases uri) ∧ ticket ∈ (cache.performAll ops).tickets uri) ∨
    ((∃ op ∈ ops, op.Releases uri) ∧ Spent (cache.performAll ops) ticket) := by
  induction ops generalizing cache with
  | nil => exact .inl ⟨nofun, ht⟩
  | cons op r ih =>
    by_cases hr : op.Releases uri
    · exact .inr ⟨⟨op, mem_cons_self, hr⟩, (spent_of_releases h hr ht).performAll r⟩
    · obtain ⟨hk, hw⟩ | ⟨⟨o, ho, hre⟩, hs⟩ :=
        ih (h.perform op) (mem_tickets_perform hr ht)
      · exact .inl ⟨forall_mem_cons.mpr ⟨hr, hk⟩, hw⟩
      · exact .inr ⟨⟨o, mem_cons_of_mem _ ho, hre⟩, hs⟩

/-- Who serves a waiting ticket: the first operation that releases its document. Until then the
ticket waits. -/
theorem served_by_release (h : Ticketed cache) (ht : settlement.ticket ∈ cache.tickets uri)
    {ops : List Operation} {last : Operation}
    (hse : settlement ∈ ((cache.performAll ops).perform last).settled) :
    (∀ op ∈ ops, ¬ op.Releases uri) ∧ last.Releases uri ∧
      settlement.ticket ∈ (cache.performAll ops).tickets uri := by
  obtain ⟨⟨o, hr, ho⟩, -⟩ := served_perform hse
  obtain ⟨hk, hw⟩ | ⟨-, hsp⟩ := waits_or_spent h ht ops
  · have hs := (h.performAll ops).single uri o _ hw ho
    exact ⟨hk, hs ▸ hr, hw⟩
  · exact absurd ho (hsp.2 o)

/-- A plan that joins leaves its ticket waiting, the next one that was not issued yet. -/
theorem mem_tickets_of_join {v : Version} {f ch : Bool}
    (h : (cache.perform (.plan uri v f ch)).plan = some (.join ticket)) :
    ticket = cache.counts.joins ∧
      ticket ∈ (cache.perform (.plan uri v f ch)).cache.tickets uri := by
  simp only [perform] at h ⊢
  obtain ⟨_, _, _, _, hp⟩ | ⟨_, _, _, _, hp⟩ | hp := cache.plan_cases uri v f ch
  · simp [hp] at h
  · rw [hp] at h ⊢
    obtain rfl : cache.counts.joins = ticket := by simpa using h
    simp [tickets]
  · simp [hp] at h

end StoryScript.Cache
