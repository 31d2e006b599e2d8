import StoryScript.Proofs.Engine.Steps
import StoryScript.Proofs.Wire.Notice
import StoryScript.Worker

/-!
What an engine tells the compiler. A compiler that follows the notices keeps the texts of the open
documents, `Store.sources`: an input of the engine gives at most one notice, before anything else,
and what the compiler makes of it is what the input made of the documents (`Engine.notifies_step`).
-/

namespace StoryScript

open EngineEvent List Table Worker

/-- The texts of the open documents, as a compiler keeps them. -/
def Store.sources (st : Store) : Table Uri Source :=
  st.documents.map fun _ d ↦ ⟨d.version, d.text⟩

namespace Store

variable (st : Store) (u : Uri)

theorem get?_sources : st.sources.get? u = (st.get? u).map fun d ↦ ⟨d.version, d.text⟩ :=
  get?_map _ _ _

theorem sources_put (v : Version) (t : String) :
    (st.put u v t).map (fun _ d ↦ (⟨d.version, d.text⟩ : Source)) = st.sources.insert u ⟨v, t⟩ :=
  map_insert _ _ _ _

/-- A document that is not accepted leaves the others as they are. -/
theorem sources_open? (v : Version) (t : String) :
    (st.open? u v t).2.sources = if (st.open? u v t).1 = true then
        noted st.sources (.opened u v t)
      else st.sources := by
  unfold open?
  by_cases hr : st.refuses t.toList = true
  · rw [if_pos hr]
    rfl
  · rw [if_neg hr]
    exact sources_put st u v t

theorem sources_change? (v : Version) (cs : List Change) :
    (st.change? u v cs).2.sources = if (st.change? u v cs).1 = true then
        noted st.sources (.changed u v cs)
      else st.sources := by
  unfold change?
  cases hg : st.get? u with
  | none => rfl
  | some d =>
    simp only [put_rope]
    rw [d.rope_eq]
    by_cases hr : st.refuses (Change.applyAll d.text.toList cs) = true
    · simp only [if_pos hr]
      rfl
    · simp only [if_neg hr, if_true]
      rw [noted, get?_sources, hg]
      exact sources_put st u v _

/-- Closing a document that is not open leaves the others as they are, and so does being told. -/
theorem sources_close? : (st.close? u).2.sources = noted st.sources (.closed u) := by
  rw [noted, sources, sources, ← Table.map_erase, close?]
  split_ifs with ho
  · rfl
  · rw [erase_of_not_contains (Bool.eq_false_iff.mpr ho)]

end Store

/-- What the compiler is told. -/
def EngineEvent.notice? : EngineEvent → Option Notice
  | .noticed n => some n
  | _ => none

/-- What happens to a document by an input that gives a notice. -/
def EngineInput.notice? : EngineInput → Option Notice
  | .request _ (.openDocument u v t) => some (.opened u v t)
  | .request _ (.changeDocument u v cs) => some (.changed u v cs)
  | .request _ (.closeDocument u) => some (.closed u)
  | _ => none

namespace Engine

theorem notice?_absorb (e : Engine) (es : List SchedulerEvent) :
    (e.absorb es).2.filterMap notice? = [] := by
  have hn : (e.absorb es).2.filterMap notice? = es.filterMap fun _ ↦ (none : Option Notice) :=
    filterMap_absorb (fun _ _ ↦ rfl) (fun _ _ _ ↦ rfl) (fun _ _ ↦ rfl) (fun _ _ ↦ rfl) e es
  rw [hn]
  exact filterMap_eq_nil_iff.mpr fun _ _ ↦ rfl

theorem notice?_settle (e : Engine) : e.settle.2.filterMap notice? = [] := by
  refine settle_invariant (P := fun _ es ↦ es.filterMap notice? = [])
    (fun _ _ _ _ h ↦ h) ?_ e [] rfl
  intro e es p u h
  rw [filterMap_append, h]
  exact notice?_absorb _ _

/-- How an input can change the texts of the open documents: not at all, and nothing is told of
them, or as the compiler is told before anything else. -/
inductive Notifies (e : Engine) (input : EngineInput) : Engined → Prop
  | nothing (next : Engined) (hnotices : next.2.filterMap notice? = [])
      (hsrcs : next.1.project.store.sources = e.project.store.sources) :
      Notifies e input next
  | first (next : Engined) (notice : Notice) (later : List EngineEvent)
      (hinput : input.notice? = some notice) (hevents : next.2 = .noticed notice :: later)
      (hlater : later.filterMap notice? = [])
      (hsrcs : next.1.project.store.sources = noted e.project.store.sources notice) :
      Notifies e input next

variable (e : Engine)

theorem notifies_handle (i : EngineInput) : e.Notifies i (e.handle i) := by
  obtain ⟨l, nx, es, ht, heq⟩ := e.takes_handle i
  have hl := notice?_absorb nx es
  have hp : (e.handle i).1.project = nx.project := by rw [heq, project_absorb]
  -- What goes to the outside at once has the notices, if there are any.
  have hq (hf : l.filterMap notice? = [])
      (hs : nx.project.store.sources = e.project.store.sources) :
      e.Notifies i (e.handle i) := by
    refine .nothing _ ?_ (by rw [hp, hs])
    rw [heq, filterMap_append, hf, hl]
    rfl
  have hn {n : Notice} {tl : List EngineEvent} (hf : l = .noticed n :: tl)
      (hr : tl.filterMap notice? = []) (hi : i.notice? = some n)
      (hs : nx.project.store.sources = noted e.project.store.sources n) :
      e.Notifies i (e.handle i) := by
    refine .first _ n (tl ++ (nx.absorb es).2) hi ?_ ?_ (by rw [hp, hs])
    · rw [heq, hf]
      rfl
    · rw [filterMap_append, hr, hl]
      rfl
  cases ht with
  | opened t u v tx ha =>
    refine hn rfl rfl rfl ?_
    exact (e.project.store.sources_open? u v tx).trans (if_pos ha)
  | changed t u v cs ha =>
    refine hn rfl rfl rfl ?_
    exact (e.project.store.sources_change? u v cs).trans (if_pos ha)
  | refused t r st _ hd =>
    exact hq rfl (congrArg (Table.map · _) hd)
  | closed t u => exact hn rfl rfl rfl (e.project.store.sources_close? u)
  | started _ _ _ _ => exact hq rfl rfl
  | answered _ _ => exact hq rfl rfl
  | found _ => exact hq rfl rfl
  | deleted _ _ => exact hq rfl rfl
  | unlisted _ => exact hq rfl rfl
  | elapsed _ => exact hq rfl rfl
  | disposed => exact hq rfl rfl

/-- The limiters tell the compiler nothing. -/
theorem notifies_step (i : EngineInput) : e.Notifies i (e.step i) := by
  have hp : (e.step i).1.project = (e.handle i).1.project := project_settle _
  have he : (e.step i).2 = (e.handle i).2 ++ (e.handle i).1.settle.2 := rfl
  have hse := notice?_settle (e.handle i).1
  cases e.notifies_handle i with
  | nothing hn hs =>
    refine .nothing _ ?_ (by rw [hp, hs])
    rw [he, filterMap_append, hn, hse]
    rfl
  | first n l hi hf hl hs =>
    refine .first _ n (l ++ (e.handle i).1.settle.2) hi ?_ ?_ (by rw [hp, hs])
    · rw [he, hf]
      rfl
    · rw [filterMap_append, hl, hse]
      rfl

end Engine

namespace Workspace

theorem containsScript_addAll {w : Workspace} {us : List Uri} {u : Uri}
    (h : (w.addAll us).containsScript u = true) :
    w.containsScript u = true ∨ u ∈ us := by
  have ha : ∀ (w : Workspace) (o : Uri), (w.add o).containsScript u = true →
      w.containsScript u = true ∨ o = u := by
    intro w o ho
    unfold add at ho
    cases he : o.extension? with
    | none =>
      rw [he] at ho
      exact .inl ho
    | some ext =>
      rw [he] at ho
      dsimp only at ho
      split_ifs at ho
      · exact (contains_insert_iff w.scripts o u ()).mp ho
      · cases hk : AssetKind.ofExtension? ext with
        | none =>
          rw [hk] at ho
          exact .inl ho
        | some k =>
          rw [hk] at ho
          exact .inl ho
  induction us generalizing w with
  | nil => exact .inl h
  | cons o r ih =>
    rw [addAll, foldl_cons, ← addAll] at h
    obtain hea | hl := ih h
    · obtain hb | rfl := ha w o hea
      · exact .inl hb
      · exact .inr mem_cons_self
    · exact .inr (mem_cons_of_mem _ hl)

theorem containsScript_remove {w : Workspace} {o u : Uri}
    (h : (w.remove o).containsScript u = true) :
    w.containsScript u = true := by
  rw [containsScript, contains_eq_isSome] at h ⊢
  rw [remove, get?_erase] at h
  split_ifs at h
  · cases h
  · exact h

end Workspace

/-- The files that are known after an input. -/
def EngineInput.indexed (w : Workspace) : EngineInput → Workspace
  | .filesFound us => w.addAll us
  | .fileDeleted u => w.remove u
  | _ => w

/-- An input whose uris and positions reach the compiler as they are. -/
structure EngineInput.Fits (input : EngineInput) : Prop where
  notice : ∀ notice, input.notice? = some notice → notice.Fits
  found : ∀ uris, input = .filesFound uris → ∀ u ∈ uris, u.IsNormal

namespace Engine

theorem workspace_step (e : Engine) (i : EngineInput) :
    (e.step i).1.project.workspace = i.indexed e.project.workspace := by
  have hp : (e.step i).1.project = (e.handle i).1.project := project_settle _
  obtain ⟨l, n, es, ht, heq⟩ := e.takes_handle i
  rw [hp, heq, project_absorb]
  cases ht <;> rfl

/-- All known uris are read back from their texts. -/
structure Normal (e : Engine) : Prop where
  opened : ∀ u, e.project.store.contains u = true → u.IsNormal
  found : ∀ u, e.project.workspace.containsScript u = true → u.IsNormal

theorem normal_start (c : Config) (ann : Annotator) : (start c ann).Normal :=
  ⟨nofun, nofun⟩

theorem contains_sources (st : Store) (u : Uri) : st.contains u = (st.sources.get? u).isSome := by
  rw [Store.contains_eq_isSome, Store.get?_sources, Option.isSome_map]

namespace Normal

variable {e : Engine}

theorem noted {ds : Table Uri Source} {n : Notice} {u : Uri}
    (h : ((Worker.noted ds n).get? u).isSome = true) :
    (ds.get? u).isSome = true ∨ n.uri = u := by
  cases n with
  | opened o v t =>
    rw [Worker.noted, get?_insert] at h
    split_ifs at h with heq
    · exact .inr heq
    · exact .inl h
  | changed o v cs =>
    rw [Worker.noted] at h
    cases hg : ds.get? o with
    | none =>
      rw [hg] at h
      exact .inl h
    | some s =>
      rw [hg, get?_insert] at h
      split_ifs at h with heq
      · exact .inr heq
      · exact .inl h
  | closed o =>
    rw [Worker.noted, get?_erase] at h
    split_ifs at h
    · cases h
    · exact .inl h

theorem step (h : e.Normal) {i : EngineInput} (hi : i.Fits) : (e.step i).1.Normal := by
  constructor
  · intro u ho
    have hop := h.opened u
    rw [contains_sources] at ho hop
    cases e.notifies_step i with
    | nothing hno hs =>
      rw [hs] at ho
      exact hop ho
    | first n l hg he hl hs =>
      rw [hs] at ho
      obtain hb | rfl := noted ho
      · exact hop hb
      · exact (hi.notice n hg).uri
  · intro u hf
    rw [workspace_step] at hf
    cases i with
    | filesFound us =>
      obtain hb | hn := Workspace.containsScript_addAll hf
      · exact h.found u hb
      · exact hi.found us rfl u hn
    | fileDeleted o => exact h.found u (Workspace.containsScript_remove hf)
    | request _ _ => exact h.found u hf
    | answer _ _ => exact h.found u hf
    | elapse _ => exact h.found u hf
    | dispose => exact h.found u hf

end Normal

end Engine

end StoryScript
