import StoryScript.Proofs.Table
import StoryScript.Store

/-!
The documents that are open after each operation of a store.
-/

namespace StoryScript.Store

variable {store : Store} {uri other : Uri} {version : Version}

@[simp] theorem put_rope (t : String) {rope : List Char} (h : rope = t.toList) :
    store.put uri version t rope h = store.put uri version t := by
  subst h
  rfl

theorem documents_open?_of_refused {t : String} (h : (store.open? uri version t).1 = false) :
    (store.open? uri version t).2.documents = store.documents := by
  unfold open? at h ⊢
  split_ifs at h ⊢
  rfl

theorem documents_change?_of_refused {cs : List Change}
    (h : (store.change? uri version cs).1 = false) :
    (store.change? uri version cs).2.documents = store.documents := by
  unfold change? at h ⊢
  cases hg : store.get? uri with
  | none => rfl
  | some d =>
    rw [hg] at h
    dsimp only at h ⊢
    split_ifs at h ⊢
    rfl

theorem get?_open? (store : Store) (uri other : Uri) (version : Version) (text : String) :
    (store.open? uri version text).2.get? other =
      if (store.open? uri version text).1 = true ∧ uri = other then
        some { version, text, annotations := store.annotate text }
      else store.get? other := by
  unfold open?
  by_cases hr : store.refuses text.toList = true
  · rw [if_pos hr]
    rfl
  · rw [if_neg hr]
    refine (Table.get?_insert store.documents uri other _).trans ?_
    simp only [true_and]
    rfl

theorem get?_change? (store : Store) (uri other : Uri) (version : Version) (cs : List Change) :
    (store.change? uri version cs).2.get? other =
      if (store.change? uri version cs).1 = true ∧ uri = other then
        (store.get? uri).map fun document ↦
          let text := String.ofList (Change.applyAll document.rope cs)
          { version, text, annotations := store.annotate text }
      else store.get? other := by
  unfold change?
  cases ho : store.get? uri with
  | none => simp
  | some document =>
    simp only [put_rope]
    by_cases hr : store.refuses (Change.applyAll document.rope cs) = true
    · rw [if_pos hr]
      rfl
    · rw [if_neg hr]
      simp only [true_and]
      exact Table.get?_insert store.documents uri other _

theorem get?_close? (store : Store) (uri other : Uri) :
    (store.close? uri).2.get? other = if uri = other then none else store.get? other := by
  unfold close?
  by_cases ho : store.contains uri = true
  · rw [if_pos ho]
    exact Table.get?_erase _ _ _
  · rw [if_neg ho]
    by_cases h : uri = other
    · subst h
      rw [if_pos rfl]
      exact Option.not_isSome_iff_eq_none.mp fun hs ↦ ho ((Table.contains_eq_isSome _ _).trans hs)
    · rw [if_neg h]

theorem contains_eq_isSome (store : Store) (uri : Uri) :
    store.contains uri = (store.get? uri).isSome :=
  Table.contains_eq_isSome _ _

theorem contains_of_version? (h : store.version? uri = some version) :
    store.contains uri = true := by
  obtain ⟨d, hg, -⟩ := Option.map_eq_some_iff.mp h
  rw [contains_eq_isSome, hg]
  rfl

theorem mem_versions_iff (store : Store) (uri : Uri) (version : Version) :
    (uri, version) ∈ store.versions ↔ store.version? uri = some version := by
  simp only [versions, List.mem_map, Prod.mk.injEq, version?, Option.map_eq_some_iff]
  constructor
  · rintro ⟨⟨listed, d⟩, he, rfl, hv⟩
    exact ⟨d, (Table.mem_entries_iff _ _ _).mp he, hv⟩
  · rintro ⟨d, hg, hv⟩
    exact ⟨(uri, d), (Table.mem_entries_iff _ _ _).mpr hg, rfl, hv⟩

/-- Opening a document closes no other. -/
theorem contains_open? (h : store.contains other = true) (uri : Uri) (version : Version)
    (t : String) : (store.open? uri version t).2.contains other = true := by
  rw [contains_eq_isSome] at h ⊢
  rw [get?_open?]
  split_ifs
  · rfl
  · exact h

/-- Changing a document closes none. -/
theorem contains_change? (h : store.contains other = true) (uri : Uri) (version : Version)
    (cs : List Change) : (store.change? uri version cs).2.contains other = true := by
  rw [contains_eq_isSome] at h ⊢
  rw [get?_change?]
  split_ifs with ho
  · rwa [Option.isSome_map, ho.2]
  · exact h

/-- Closing a document closes no other. -/
theorem contains_close? (h : store.contains other = true) (hn : uri ≠ other) :
    (store.close? uri).2.contains other = true := by
  rw [contains_eq_isSome] at h ⊢
  rwa [get?_close?, if_neg hn]

end StoryScript.Store
