import Mathlib.Data.List.Basic
import StoryScript.Resolution

/-!
The segments of paths. A path and what is written behind a dot of it have the same last segment
(`Path.last`), so however an id is completed to the left, it goes on naming the same word. Ids whose
segments are all words (`Path.Plain`) stand for themselves.
-/

namespace StoryScript

open List

namespace Text

variable {α : Type} {p : α → Bool} {xs pc : List α}

theorem eq_false_of_mem_splitOnP (h : pc ∈ xs.splitOnP p) : ∀ x ∈ pc, p x = false := by
  induction xs generalizing pc with
  | nil =>
    obtain rfl : pc = [] := by simpa using h
    exact nofun
  | cons x r ih =>
    obtain ⟨a, l, hs⟩ := exists_cons_of_ne_nil (splitOnP_ne_nil p r)
    rw [splitOnP_cons_eq_if_modifyHead, hs] at h
    rw [hs] at ih
    by_cases hx : p x = true
    · rw [if_pos hx] at h
      rcases mem_cons.mp h with rfl | hl
      · exact nofun
      · exact ih hl
    · rw [if_neg hx] at h
      rcases mem_cons.mp h with rfl | hl
      · exact forall_mem_cons.mpr ⟨Bool.eq_false_iff.mpr hx, ih mem_cons_self⟩
      · exact ih (mem_cons_of_mem _ hl)

/-- The pieces between separators are parts of the whole; the first one is its opening. -/
theorem isPrefix_of_splitOnP {a : List α} {l : List (List α)} (h : xs.splitOnP p = a :: l) :
    a <+: xs ∧ ∀ pc ∈ l, pc <:+: xs := by
  induction xs generalizing a l with
  | nil =>
    obtain ⟨rfl, rfl⟩ : a = [] ∧ l = [] := by simpa using h.symm
    exact ⟨prefix_rfl, nofun⟩
  | cons x r ih =>
    obtain ⟨head, tail, hs⟩ := exists_cons_of_ne_nil (splitOnP_ne_nil p r)
    obtain ⟨hh, ht⟩ := ih hs
    rw [splitOnP_cons_eq_if_modifyHead, hs] at h
    by_cases hx : p x = true
    · rw [if_pos hx] at h
      obtain ⟨rfl, rfl⟩ := List.cons.inj h
      refine ⟨List.nil_prefix, fun pc hp ↦ ?_⟩
      rcases mem_cons.mp hp with rfl | hl
      · exact infix_cons hh.isInfix
      · exact infix_cons (ht pc hl)
    · rw [if_neg hx] at h
      obtain ⟨rfl, rfl⟩ := List.cons.inj h
      exact ⟨cons_prefix_cons.mpr ⟨rfl, hh⟩, fun pc hp ↦ infix_cons (ht pc hp)⟩

theorem isInfix_of_mem_splitOnP (h : pc ∈ xs.splitOnP p) : pc <:+: xs := by
  obtain ⟨x, l, hs⟩ := exists_cons_of_ne_nil (splitOnP_ne_nil p xs)
  obtain ⟨hf, hl⟩ := isPrefix_of_splitOnP hs
  rw [hs] at h
  rcases mem_cons.mp h with rfl | h
  · exact hf.isInfix
  · exact hl pc h

end Text

namespace Path

variable {path x y name : String} {ns : List String}

theorem segments_ne_nil (path : String) : segments path ≠ [] := by
  simp [segments, Text.split]

theorem segments_append (x y : String) : segments (x ++ "." ++ y) = segments x ++ segments y := by
  simp only [segments, Text.split, String.toList_append, append_assoc]
  rw [← map_append]
  congr 1
  exact splitOn_append_cons_self _ _

theorem segments_of_dotless (h : '.' ∉ path.toList) : segments path = [path] := by
  rw [segments, Text.split, splitOn_eq_singleton h]
  simp

theorem dotless_of_mem_segments {s : String} (h : s ∈ segments path) : '.' ∉ s.toList := by
  obtain ⟨pc, hp, rfl⟩ := mem_map.mp h
  intro hd
  simpa using Text.eq_false_of_mem_splitOnP hp '.' (by simpa using hd)

theorem ofSegments_cons {r : List String} (x : String) (h : r ≠ []) :
    ofSegments (x :: r) = x ++ "." ++ ofSegments r := by
  obtain ⟨y, l, rfl⟩ := exists_cons_of_ne_nil h
  rfl

theorem ofSegments_concat (h : ns ≠ []) (name : String) :
    ofSegments (ns ++ [name]) = ofSegments ns ++ "." ++ name := by
  induction ns with
  | nil => exact absurd rfl h
  | cons x r ih =>
    by_cases hr : r = []
    · subst hr
      rfl
    · rw [cons_append, ofSegments_cons x (by simp), ih hr, ofSegments_cons x hr]
      simp only [String.append_assoc]

theorem segments_ofSegments (hn : ns ≠ []) (h : ∀ name ∈ ns, '.' ∉ name.toList) :
    segments (ofSegments ns) = ns := by
  induction ns with
  | nil => exact absurd rfl hn
  | cons x r ih =>
    obtain ⟨hf, hr⟩ := forall_mem_cons.mp h
    by_cases he : r = []
    · rw [he]
      exact segments_of_dotless hf
    · rw [ofSegments_cons x he, segments_append, segments_of_dotless hf, ih he hr]
      rfl

theorem toList_ofSegments (ns : List String) :
    (ofSegments ns).toList = ['.'].intercalate (ns.map String.toList) := by
  induction ns with
  | nil => rfl
  | cons x r ih =>
    by_cases he : r = []
    · rw [he, map_singleton, intercalate_singleton]
      rfl
    · obtain ⟨y, l, rfl⟩ := exists_cons_of_ne_nil he
      rw [ofSegments_cons x he, String.toList_append, String.toList_append, ih]
      simp [intercalate_cons_cons]

theorem ofSegments_segments (path : String) : ofSegments (segments path) = path := by
  apply String.toList_injective
  have hc : (segments path).map String.toList = path.toList.splitOn '.' := by
    simp [segments, Text.split]
  rw [toList_ofSegments, hc, intercalate_splitOn]

theorem segments_injective (h : segments x = segments y) : x = y := by
  rw [← ofSegments_segments x, h, ofSegments_segments]

theorem eq_iff_segments_eq {o : String} (h : segments o = ns) : path = o ↔ segments path = ns :=
  ⟨fun heq ↦ heq ▸ h, fun heq ↦ segments_injective (heq.trans h.symm)⟩

theorem ofSegments_append {l lt : List String} (hl : lt ≠ []) :
    ofSegments (l ++ [ofSegments lt]) = ofSegments (l ++ lt) := by
  induction l with
  | nil => rfl
  | cons x r ih =>
    rw [cons_append, cons_append, ofSegments_cons x (by simp), ofSegments_cons x (by simp [hl]), ih]

theorem dotless_of_mem_names (h : name ∈ names path) : '.' ∉ name.toList :=
  dotless_of_mem_segments (mem_of_mem_filter h)

/-- The last segment of a path. -/
def last (path : String) : String :=
  (segments path).getLast (segments_ne_nil path)

theorem last_mem_segments (path : String) : last path ∈ segments path :=
  getLast_mem _

theorem last_append (x y : String) : last (x ++ "." ++ y) = last y := by
  unfold last
  simp only [segments_append]
  exact getLast_append_of_ne_nil _ (segments_ne_nil y)

theorem last_of_dotless (h : '.' ∉ path.toList) : last path = path := by
  unfold last
  simp only [segments_of_dotless h, getLast_singleton]

theorem last_last (path : String) : last (last path) = last path :=
  last_of_dotless (dotless_of_mem_segments (last_mem_segments path))

theorem last_within (sc name : String) : last (within sc name) = last name := by
  unfold within
  split_ifs
  · rfl
  · exact last_append _ _

/-- An id that is a word, or that ends with the word behind a dot. -/
def EndsWith (id w : String) : Prop :=
  id = w ∨ ∃ path, id = path ++ "." ++ w

theorem EndsWith.last_eq {id w : String} (h : EndsWith id w) : last id = last w := by
  rcases h with rfl | ⟨path, rfl⟩
  · rfl
  · exact last_append path w

theorem endsWith_last (id : String) : EndsWith id (last id) := by
  by_cases hd : '.' ∈ id.toList.reverse
  · obtain ⟨b, l, hi, hdo⟩ := eq_append_cons_of_mem hd
    have hi : id = String.ofList l.reverse ++ "." ++ String.ofList b.reverse := by
      rw [← String.toList_inj, ← reverse_inj, hi]
      simp
    have hl : last id = String.ofList b.reverse := by
      rw [hi, last_append, last_of_dotless (by simpa using hdo)]
    rw [hl]
    exact .inr ⟨_, hi⟩
  · exact .inl (last_of_dotless (by simpa using hd)).symm

theorem endsWith_within (sc name : String) : EndsWith (within sc name) name := by
  unfold within
  split_ifs
  · exact .inl rfl
  · exact .inr ⟨sc, rfl⟩

theorem last_ofSegments_append (l : List String) (name : String) :
    last (ofSegments (l ++ [name])) = last name := by
  induction l with
  | nil => rfl
  | cons x r ih =>
    cases r with
    | nil => exact last_append x name
    | cons y lt =>
      rw [← ih]
      exact last_append x (ofSegments (y :: lt ++ [name]))

/-- A path of words: none of its segments is empty, and none is a question mark. -/
structure Plain (path : String) : Prop where
  nonempty : "" ∉ segments path
  known : '?' ∉ path.toList

theorem Plain.append (hf : Plain x) (hs : Plain y) : Plain (x ++ "." ++ y) := by
  constructor
  · rw [segments_append, mem_append, not_or]
    exact ⟨hf.nonempty, hs.nonempty⟩
  · simp [hf.known, hs.known]

theorem Plain.within {sc : String} (hs : sc = "" ∨ Plain sc) (hn : Plain name) :
    Plain (within sc name) := by
  unfold Path.within
  split_ifs with he
  · exact hn
  · exact (hs.resolve_left he).append hn

theorem Plain.ne_empty (h : Plain path) : path ≠ "" := by
  rintro rfl
  exact h.nonempty (by decide)

end Path

namespace IdForm

variable {id : String}

theorem eq_of_splitAtDots? {t l r : List Char}
    (h : splitAtDots? t = some (l, r)) : t = l ++ '.' :: '.' :: r := by
  fun_induction splitAtDots? t generalizing l r with
  | case1 tl =>
    obtain ⟨rfl, rfl⟩ := Prod.mk.inj (Option.some.inj h)
    rfl
  | case2 c tl hn ih =>
    obtain ⟨⟨left, right⟩, hs, heq⟩ := Option.map_eq_some_iff.mp h
    obtain ⟨rfl, rfl⟩ := Prod.mk.inj heq
    exact congrArg (c :: ·) (ih hs)
  | case3 => cases h

theorem eq_of_ofId_inScope {name : String} (h : ofId id = .inScope name) : id = "." ++ name := by
  unfold ofId at h
  split at h
  · cases h
  · split at h
    · cases h
    · rename_i rest ht _
      obtain rfl := IdForm.inScope.inj h
      apply String.toList_injective
      simpa using ht
    · cases h
    · cases h

theorem eq_of_ofId_searched {start name : String} (h : ofId id = .searched start name) :
    id = start ++ "." ++ ("." ++ name) := by
  unfold ofId at h
  split at h
  · cases h
  · split at h
    · rename_i hs
      obtain ⟨rfl, rfl⟩ := IdForm.searched.inj h
      apply String.toList_injective
      simpa using eq_of_splitAtDots? hs
    · cases h
    · rename_i hs _
      obtain ⟨rfl, rfl⟩ := IdForm.searched.inj h
      apply String.toList_injective
      simpa using eq_of_splitAtDots? hs
    · cases h

theorem eq_of_ofId_inferred (h : ofId id = .inferred) : ∃ r, id.toList = '?' :: '.' :: r := by
  unfold ofId at h
  split at h
  · rename_i r ht
    exact ⟨r, ht⟩
  · split at h <;> cases h

theorem ofId_of_plain (h : Path.Plain id) : ofId id = .literal := by
  have hl : ∀ name, "" ∈ Path.segments ("." ++ name) := fun name ↦
    (Path.segments_append "" name).symm ▸ mem_append_left _ (by decide)
  cases hf : ofId id with
  | literal => rfl
  | inferred =>
    obtain ⟨r, ht⟩ := eq_of_ofId_inferred hf
    exact absurd (ht ▸ mem_cons_self) h.known
  | inScope name =>
    refine absurd ?_ h.nonempty
    rw [eq_of_ofId_inScope hf]
    exact hl name
  | searched start name =>
    refine absurd ?_ h.nonempty
    rw [eq_of_ofId_searched hf, Path.segments_append]
    exact mem_append_right _ (hl name)

end IdForm

end StoryScript
