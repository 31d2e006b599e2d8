import StoryScript.Proofs.Cache.Join

/-!
While a document is being compiled, from the plan that starts the compile to the operation that
releases the document, the version under way only grows (`Marked.perform`) unless a plan is forced.
So no plan for that version or an older one starts a second compile (`window_shares_compile`).
-/

namespace StoryScript.Cache

open List

variable {cache : Cache} {uri : Uri} {version : Version}

/-- Whether an operation is a forced plan for a document. -/
def Operation.Forces (uri : Uri) : Operation → Prop
  | .plan o _ f _ => o = uri ∧ f = true
  | .complete _ _ _ | .abandon _ | .remove _ | .clear => False

/-- A version of a document, or a newer one, is being compiled. -/
def Marked (cache : Cache) (uri : Uri) (version : Version) : Prop :=
  ∃ r, cache.compiling? uri = some r ∧ version ≤ r

theorem Marked.mono (h : Marked cache uri version) {l : Version} (hl : l ≤ version) :
    Marked cache uri l := by
  obtain ⟨r, hr, hv⟩ := h
  exact ⟨r, hr, Int32.le_trans hl hv⟩

/-- A plan that is not forced starts no compile of what is being compiled. -/
theorem Marked.plan_ne_compile (h : Marked cache uri version) (ch : Bool) :
    (cache.plan uri version false ch).1 ≠ .compile := by
  obtain ⟨r, hr, hl⟩ := h
  have hc : ((cache.state? uri).getD {}).compiling = some r := by
    rw [← hr, compiling?]
    cases cache.state? uri <;> rfl
  unfold plan
  dsimp only
  split
  · rintro ⟨⟩
  · rw [if_pos (by simpa [hc] using hl)]
    rintro ⟨⟩

theorem marked_of_compile {f ch : Bool} (h : (cache.plan uri version f ch).1 = .compile) :
    Marked (cache.perform (.plan uri version f ch)).cache uri version :=
  ⟨version, by simp only [perform, compiling?_plan, h, and_self, if_true], Int32.le_refl _⟩

theorem Marked.perform (h : Marked cache uri version) {op : Operation}
    (hk : ¬ op.Releases uri) (hu : ¬ op.Forces uri) :
    Marked (cache.perform op).cache uri version := by
  obtain ⟨rn, hr, hl⟩ := h
  cases op with
  | plan t planned f ch =>
    simp only [Marked, Cache.perform, compiling?_plan]
    split_ifs with hc
    · obtain ⟨rfl, hc⟩ := hc
      obtain rfl : f = false := Bool.eq_false_iff.mpr fun hf ↦ hu ⟨rfl, hf⟩
      -- Had the plan been for an older version, it would not have started a compile.
      refine ⟨planned, rfl, (Int32.le_total version planned).resolve_right fun holder ↦ ?_⟩
      exact Marked.plan_ne_compile ⟨rn, hr, Int32.le_trans holder hl⟩ ch hc
    · exact ⟨rn, hr, hl⟩
  | complete p r tr =>
    have hs := (cache.compiling?_complete p r tr uri).trans (if_neg hk)
    exact ⟨rn, hs.trans hr, hl⟩
  | abandon t =>
    have hs := (cache.compiling?_abandon t uri).trans (if_neg hk)
    exact ⟨rn, hs.trans hr, hl⟩
  | remove t =>
    have hs := (cache.compiling?_remove t uri).trans (if_neg hk)
    exact ⟨rn, hs.trans hr, hl⟩
  | clear => exact absurd trivial hk

theorem Marked.performAll (h : Marked cache uri version) {ops : List Operation}
    (hw : ∀ op ∈ ops, ¬ op.Releases uri ∧ ¬ op.Forces uri) :
    Marked (cache.performAll ops) uri version := by
  induction ops generalizing cache with
  | nil => exact h
  | cons op r ih =>
    obtain ⟨hf, hr⟩ := forall_mem_cons.mp hw
    exact ih (h.perform hf.1 hf.2) hr

/-- After a plan that starts a compile of a document, and until the document is released or a plan
for it is forced, every plan for the same version or an older one is answered by the cache or joins a
compile. -/
theorem window_shares_compile (before window : List Operation) (uri : Uri) (version : Version)
    (force changed : Bool)
    (hcompile : ((empty.performAll before).perform (.plan uri version force changed)).plan =
      some .compile)
    (hwindow : ∀ operation ∈ window, ¬ operation.Releases uri ∧ ¬ operation.Forces uri)
    (between after : List Operation) (earlier : Version) (stale : Bool)
    (hsplit : window = between ++ .plan uri earlier false stale :: after)
    (hle : earlier ≤ version) :
    let cache := empty.performAll (before ++ .plan uri version force changed :: between)
    let answer := (cache.perform (.plan uri earlier false stale)).plan
    (∃ snapshot, answer = some (.cached snapshot)) ∨ ∃ ticket, answer = some (.join ticket) := by
  intro cache answer
  have hmarked : Marked cache uri version := by
    simp only [cache, performAll, foldl_append, foldl_cons]
    refine Marked.performAll (marked_of_compile (Option.some.inj hcompile)) fun operation hin ↦ ?_
    exact hwindow operation (hsplit ▸ mem_append_left _ hin)
  have hshared := (hmarked.mono hle).plan_ne_compile stale
  change (∃ snapshot, some (cache.plan uri earlier false stale).1 = _) ∨
    ∃ ticket, some (cache.plan uri earlier false stale).1 = _
  cases hplan : (cache.plan uri earlier false stale).1 with
  | cached snapshot => exact Or.inl ⟨snapshot, rfl⟩
  | join ticket => exact Or.inr ⟨ticket, rfl⟩
  | compile => exact absurd hplan hshared

/-- A newer version is planned for and another script completed; a plan for the first version still
joins. -/
theorem window_shares_compile_olderVersion :
    let between : List Operation :=
      [.plan chapterUri 3 false true, .complete (programOf mainUri 1) (some mainUri) fun _ ↦ false]
    let cache := empty.performAll ([] ++ .plan chapterUri 2 true true :: between)
    let answer := (cache.perform (.plan chapterUri 1 false true)).plan
    ((empty.performAll []).perform (.plan chapterUri 2 true true)).plan = some .compile ∧
      ((∃ snapshot, answer = some (.cached snapshot)) ∨ ∃ ticket, answer = some (.join ticket)) := by
  intro between cache answer
  have hwindow : ∀ operation ∈ between ++ [.plan chapterUri 1 false true],
      ¬ operation.Releases chapterUri ∧ ¬ operation.Forces chapterUri := by
    refine forall_mem_cons.mpr ⟨⟨id, by simp [Operation.Forces]⟩, forall_mem_cons.mpr
      ⟨⟨fun hsettled ↦ ?_, id⟩, forall_mem_singleton.mpr ⟨id, by simp [Operation.Forces]⟩⟩⟩
    exact absurd ((mem_settledBy _ _ _ _).mp hsettled) (by decide)
  exact ⟨by decide, window_shares_compile [] _ chapterUri 2 true true (by decide) hwindow between [] 1
    true rfl (by decide)⟩

end StoryScript.Cache
