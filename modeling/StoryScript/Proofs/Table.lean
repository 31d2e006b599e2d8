import Mathlib.Data.List.Basic
import StoryScript.Table

/-!
What a table holds after each operation, seen through `Table.get?`. A table has one entry for each
key, so that its entries, its keys and what it answers say the same (`mem_entries_iff`).
-/

namespace StoryScript.Table

open List

variable {κ β : Type} [Named κ] {es : List (κ × β)}

@[ext] theorem ext {x y : Table κ β} (h : x.entries = y.entries) : x = y := by
  cases x
  cases y
  simp_all

variable [DecidableEq κ]

section Entries

variable (t : Table κ β) (key o : κ) (v : β)

@[simp] theorem get?_empty : (empty : Table κ β).get? key = none := rfl

theorem find?_insertEntry (es : List (κ × β)) :
    ((insertEntry key v es).find? fun e ↦ e.1 = o) =
      if key = o then some (key, v) else es.find? fun e ↦ e.1 = o := by
  induction es with
  | nil => by_cases h : key = o <;> simp [insertEntry, h]
  | cons x r ih =>
    unfold insertEntry
    by_cases hk : key = x.1
    · by_cases h : key = o
      · simp [hk, ← h]
      · have hf : x.1 ≠ o := fun heq ↦ h (hk.trans heq)
        simp [hk, hf]
    · rw [if_neg hk]
      by_cases hl : Named.name key < Named.name x.1
      · rw [if_pos hl]
        by_cases h : key = o <;> simp [h]
      · rw [if_neg hl, find?_cons, ih]
        by_cases h : key = o
        · have hf : x.1 ≠ o := fun heq ↦ hk (h.trans heq.symm)
          simp [h, hf]
        · by_cases hf : x.1 = o <;> simp [h, hf]

theorem get?_insert : (t.insert key v).get? o = if key = o then some v else t.get? o := by
  simp only [get?, insert, find?_insertEntry]
  by_cases h : key = o <;> simp [h]

@[simp] theorem get?_insert_self : (t.insert key v).get? key = some v := by
  rw [get?_insert, if_pos rfl]

theorem get?_insert_of_ne {key o : κ} (h : key ≠ o) : (t.insert key v).get? o = t.get? o := by
  rw [get?_insert, if_neg h]

theorem get?_erase : (t.erase key).get? o = if key = o then none else t.get? o := by
  simp only [get?, erase, find?_filter]
  by_cases h : key = o
  · subst h
    rw [if_pos rfl, Option.map_eq_none_iff, find?_eq_none]
    intro e _
    by_cases hk : e.1 = key <;> simp [hk]
  · rw [if_neg h]
    congr 2
    funext e
    by_cases ho : e.1 = o
    · have hk : e.1 ≠ key := fun heq ↦ h (heq.symm.trans ho)
      simp [ho, ho ▸ hk]
    · simp [ho]

theorem get?_alter (update : Option β → β) :
    (t.alter key update).get? o = if key = o then some (update (t.get? key)) else t.get? o :=
  get?_insert t key o _

theorem contains_eq_isSome : t.contains key = (t.get? key).isSome := by
  rw [contains, get?, Option.isSome_map, isSome_find?]

theorem contains_iff : t.contains key = true ↔ ∃ v, t.get? key = some v := by
  rw [contains_eq_isSome, Option.isSome_iff_exists]

/-- An entry is what the table answers for its key: no other entry has the key. -/
theorem mem_entries_iff : (key, v) ∈ t.entries ↔ t.get? key = some v := by
  obtain ⟨es, sorted⟩ := t
  simp only [get?]
  constructor
  · intro hm
    induction es with
    | nil => simp at hm
    | cons x r ih =>
      obtain ⟨hfi, hr⟩ := pairwise_cons.mp sorted
      rcases mem_cons.mp hm with rfl | hm
      · simp
      · have hn : x.1 ≠ key := (hfi _ hm).2
        rw [find?_cons_of_neg (by simpa using hn)]
        exact ih hr hm
  · intro hg
    obtain ⟨e, hf, rfl⟩ := Option.map_eq_some_iff.mp hg
    have hk : e.1 = key := by simpa using find?_some hf
    rw [← hk]
    exact mem_of_find?_eq_some hf

omit [DecidableEq κ] in
theorem nodup_keys : t.keys.Nodup :=
  pairwise_map.mpr (t.sorted.imp And.right)

theorem mem_keys_iff : key ∈ t.keys ↔ ∃ v, t.get? key = some v := by
  simp only [keys, mem_map, Prod.exists, mem_entries_iff]
  constructor
  · rintro ⟨_, v, hg, rfl⟩
    exact ⟨v, hg⟩
  · rintro ⟨v, hg⟩
    exact ⟨key, v, hg, rfl⟩

theorem contains_insert_iff :
    (t.insert key v).contains o = true ↔ t.contains o = true ∨ key = o := by
  rw [contains_eq_isSome, contains_eq_isSome, get?_insert]
  by_cases h : key = o <;> simp [h]

theorem contains_ofList_iff (es : List (κ × β)) (key : κ) :
    (ofList es).contains key = true ↔ ∃ e ∈ es, e.1 = key := by
  have hf : ∀ t : Table κ β, (es.foldl (fun t e ↦ t.insert e.1 e.2) t).contains key = true ↔
        t.contains key = true ∨ ∃ e ∈ es, e.1 = key := by
    induction es with
    | nil => simp
    | cons e r ih =>
      intro t
      rw [foldl_cons, ih, contains_insert_iff, exists_mem_cons_iff, or_assoc]
  exact (hf empty).trans (by simp [contains, empty])

theorem mem_of_mem_ofList {e : κ × β} (h : e ∈ (ofList es).entries) : e ∈ es := by
  have hf : ∀ (es : List (κ × β)) (t : Table κ β),
      e ∈ (es.foldl (fun t e ↦ t.insert e.1 e.2) t).entries → e ∈ t.entries ∨ e ∈ es := by
    intro es
    induction es with
    | nil => exact fun _ h ↦ Or.inl h
    | cons x r ih =>
      intro t h
      obtain hi | hr := ih _ h
      · obtain rfl | ho := mem_insertEntry hi
        · exact .inr mem_cons_self
        · exact .inl ho
      · exact .inr (mem_cons_of_mem _ hr)
  exact (hf es empty h).resolve_left nofun

/-- An entry that comes after all others is added at the end. -/
theorem insertEntry_of_last {key : κ} {v : β} (h : ∀ e ∈ es, Precedes e (key, v)) :
    insertEntry key v es = es ++ [(key, v)] := by
  induction es with
  | nil => rfl
  | cons x r ih =>
    obtain ⟨hn, hne⟩ := h x mem_cons_self
    have hl : ¬ Named.name key < Named.name x.1 := String.not_lt.mpr hn
    rw [insertEntry, if_neg (Ne.symm hne), if_neg hl,
      ih fun e he ↦ h e (mem_cons_of_mem _ he), cons_append]

/-- A table is the table of its entries. -/
theorem ofList_entries : ofList t.entries = t := by
  have hf : ∀ (l : List (κ × β)) (x : Table κ β), (x.entries ++ l).Pairwise Precedes →
      (l.foldl (fun t e ↦ t.insert e.1 e.2) x).entries = x.entries ++ l := by
    intro l
    induction l with
    | nil => exact fun x _ ↦ (append_nil _).symm
    | cons e r ih =>
      intro x hs
      have hl : (x.insert e.1 e.2).entries = x.entries ++ [e] :=
        insertEntry_of_last fun o ho ↦ (pairwise_append.mp hs).2.2 o ho e mem_cons_self
      rw [foldl_cons, ih _ (by rwa [hl, append_assoc]), hl, append_assoc]
      rfl
  exact ext (hf t.entries empty t.sorted)

end Entries

theorem perm_insertEntry {key : κ} (h : key ∉ es.map Prod.fst) (v : β) :
    (insertEntry key v es).Perm ((key, v) :: es) := by
  induction es with
  | nil => exact Perm.refl _
  | cons x r ih =>
    obtain ⟨hf, hr⟩ := not_or.mp (mt mem_cons.mpr h)
    rw [insertEntry, if_neg hf]
    split_ifs
    · exact Perm.refl _
    · exact ((ih hr).cons x).trans (Perm.swap _ _ _)

/-- A list in which no key stands twice is kept as it is, but for the order. -/
theorem perm_entries_ofList (h : (es.map Prod.fst).Nodup) : (ofList es).entries.Perm es := by
  have hf : ∀ (l : List (κ × β)) (t : Table κ β), ((t.entries ++ l).map Prod.fst).Nodup →
      (l.foldl (fun t e ↦ t.insert e.1 e.2) t).entries.Perm (t.entries ++ l) := by
    intro l
    induction l with
    | nil => exact fun t _ ↦ by rw [append_nil]; exact Perm.refl _
    | cons e r ih =>
      intro t hno
      have hm : (t.entries ++ e :: r).Perm (e :: (t.entries ++ r)) := perm_middle
      have hn := (hm.map Prod.fst).nodup_iff.mp hno
      have hi : (t.insert e.1 e.2).entries.Perm (e :: t.entries) := by
        refine perm_insertEntry (fun hme ↦ (nodup_cons.mp hn).1 ?_) e.2
        rw [map_append]
        exact mem_append_left _ hme
      have hb := hi.append_right r
      exact (ih _ ((hb.map Prod.fst).nodup_iff.mpr hn)).trans (hb.trans hm.symm)
  exact hf es empty h

/-- A table whose keys have different names does not depend on the order of its entries. -/
theorem ofList_of_perm {t : Table κ β} (hp : es.Perm t.entries)
    (hn : ∀ x ∈ t.entries, ∀ y ∈ t.entries,
      Named.name x.1 = Named.name y.1 → x.1 = y.1) : ofList es = t := by
  have hs : (ofList es).entries.Perm t.entries :=
    (perm_entries_ofList ((hp.map Prod.fst).nodup_iff.mpr t.nodup_keys)).trans hp
  refine ext (hs.eq_of_pairwise (fun x y hf hse hl hg ↦ ?_) (ofList es).sorted t.sorted)
  exact absurd (hn x (hs.mem_iff.mp hf) y hse (String.le_antisymm hl.1 hg.1)) hl.2

theorem erase_of_not_contains {t : Table κ β} {key : κ} (h : t.contains key = false) :
    t.erase key = t := by
  refine ext (filter_eq_self.mpr fun e he ↦ ?_)
  have hn := any_eq_false.mp h e he
  simpa using hn

section Map

variable {γ : Type} (f : κ → β → γ) (t : Table κ β) (key : κ) (v : β)

theorem map_insertEntry (es : List (κ × β)) :
    (insertEntry key v es).map (fun e ↦ (e.1, f e.1 e.2)) =
      insertEntry key (f key v) (es.map fun e ↦ (e.1, f e.1 e.2)) := by
  induction es with
  | nil => rfl
  | cons x r ih =>
    rw [insertEntry, map_cons, insertEntry]
    split_ifs
    · rfl
    · rfl
    · rw [map_cons, ih]

theorem map_insert : (t.insert key v).map f = (t.map f).insert key (f key v) :=
  ext (map_insertEntry f key v t.entries)

theorem map_erase : (t.erase key).map f = (t.map f).erase key := by
  refine ext ?_
  simp only [map, erase, filter_map]
  rfl

theorem get?_map : (t.map f).get? key = (t.get? key).map (f key) := by
  simp only [get?, map, find?_map, Option.map_map]
  cases hf : t.entries.find? fun e ↦ e.1 = key with
  | none =>
    have hc : (t.entries.find? ((fun e : κ × γ ↦ decide (e.1 = key)) ∘
        fun e ↦ (e.1, f e.1 e.2))) = none := hf
    rw [hc]
    rfl
  | some e =>
    have hc : (t.entries.find? ((fun e : κ × γ ↦ decide (e.1 = key)) ∘
        fun e ↦ (e.1, f e.1 e.2))) = some e := hf
    have hk : e.1 = key := by simpa using find?_some hf
    rw [hc, ← hk]
    rfl

end Map

end StoryScript.Table

namespace StoryScript.Keys

open List

theorem mem_of_mem_ofList {keys : List String} {key : String} (h : key ∈ (ofList keys).keys) :
    key ∈ keys := by
  have ho : ofList keys = Table.ofList (keys.map fun key ↦ (key, ())) := by
    rw [Table.ofList, foldl_map]
    rfl
  rw [ho] at h
  obtain ⟨e, he, rfl⟩ := mem_map.mp h
  obtain ⟨key, hk, rfl⟩ := mem_map.mp (Table.mem_of_mem_ofList he)
  exact hk

end StoryScript.Keys
