import Mathlib.Data.List.Basic
import Mathlib.Data.List.Induction
import Mathlib.Data.List.Pairwise
import Mathlib.Data.List.TakeWhile
import StoryScript.RangeSet

/-!
Sets of annotations. `RangeSet.ofList` sorts a list and loses nothing of it; `RangeSet.findAt`
finds there what a scan of the list as given finds, the innermost annotation at an offset.
-/

namespace StoryScript

open Bool List StoryScript.Span

namespace Span

variable {x y : Span}

theorem precedes_iff :
    x.precedes y = true ↔ x.start < y.start ∨ x.start = y.start ∧ x.stop ≤ y.stop := by
  simp [precedes]

theorem isWithin_iff :
    x.isWithin y = true ↔ y.start < x.start ∨ y.start = x.start ∧ x.stop < y.stop := by
  simp [isWithin]

theorem isWithin_eq_false_iff :
    x.isWithin y = false ↔ ¬(y.start < x.start ∨ y.start = x.start ∧ x.stop < y.stop) := by
  rw [eq_false_iff, ne_eq, isWithin_iff]

theorem touches_iff {off : Nat} : x.touches off = true ↔ x.start ≤ off ∧ off ≤ x.stop := by
  simp [touches]

theorem precedes_trans (x y z : Span) (h : x.precedes y = true)
    (h' : y.precedes z = true) : x.precedes z = true := by
  rw [precedes_iff] at *
  omega

theorem precedes_total (x y : Span) : (x.precedes y || y.precedes x) = true := by
  rw [or_eq_true, precedes_iff, precedes_iff]
  omega

theorem start_le_of_precedes (h : x.precedes y = true) : x.start ≤ y.start := by
  rw [precedes_iff] at h
  omega

theorem eq_of_isWithin_eq_false (h : x.isWithin y = false) (h' : y.isWithin x = false) : x = y := by
  rw [isWithin_eq_false_iff] at h h'
  cases x
  cases y
  simp only [mk.injEq] at *
  omega

end Span

namespace RangeSet

variable {α : Type} {set : RangeSet α}

theorem perm_ofList (items : List (Annotated α)) : (ofList items).items.Perm items :=
  mergeSort_perm _ _

/-- A set whose annotations stand in the order of their starts. -/
def Sorted (set : RangeSet α) : Prop :=
  set.items.Pairwise fun x y ↦ x.span.start ≤ y.span.start

theorem pairwise_ofList (items : List (Annotated α)) :
    (ofList items).items.Pairwise fun x y ↦ x.span.precedes y.span = true := by
  refine pairwise_mergeSort ?_ ?_ items
  · exact fun x y z ↦ precedes_trans _ _ _
  · exact fun x y ↦ precedes_total _ _

theorem sorted_ofList (items : List (Annotated α)) : (ofList items).Sorted :=
  (pairwise_ofList items).imp start_le_of_precedes

/-- Annotations of one span keep the order in which they were given. -/
theorem filter_ofList (items : List (Annotated α)) (span : Span) :
    ((ofList items).items.filter fun x ↦ x.span = span) = items.filter fun x ↦ x.span = span := by
  have hsub : (items.filter fun x ↦ x.span = span).Sublist (ofList items).items := by
    refine sublist_mergeSort (fun x y z ↦ precedes_trans x.span y.span z.span)
      (fun x y ↦ precedes_total x.span y.span) ?_ filter_sublist
    refine pairwise_of_forall_mem_list fun x hx y hy ↦ ?_
    simp [precedes, of_decide_eq_true (mem_filter.mp hx).2, of_decide_eq_true (mem_filter.mp hy).2]
  have hf := hsub.filter fun x ↦ x.span = span
  rw [filter_filter] at hf
  simp only [Bool.and_self] at hf
  exact (hf.eq_of_length ((perm_ofList items).filter _).length_eq.symm).symm

/-- In a sorted set, the annotations that start before an offset come first. -/
theorem Sorted.takeWhile_start_lt (h : set.Sorted) (off : Nat) :
    (set.items.takeWhile fun x ↦ x.span.start < off) =
      set.items.filter fun x ↦ x.span.start < off := by
  unfold Sorted at h
  generalize set.items = items at h
  induction items with
  | nil => rfl
  | cons x rest ih =>
    obtain ⟨hi, hr⟩ := pairwise_cons.mp h
    by_cases hl : x.span.start < off
    · rw [takeWhile_cons_of_pos (by simpa using hl), filter_cons_of_pos (by simpa using hl), ih hr]
    · rw [takeWhile_cons_of_neg (by simpa using hl), eq_comm]
      refine filter_eq_nil_iff.mpr (forall_mem_cons.mpr ⟨by simpa using hl, ?_⟩)
      intro y ho
      have := hi y ho
      simp only [decide_eq_true_eq]
      omega

/-- Halving finds the first item that fails a test, if no item behind it passes. -/
theorem bisect_eq_findIdx {test : α → Bool} {items : List α}
    (h : items.Pairwise fun x y ↦ test y = true → test x = true) :
    bisect test items = items.findIdx fun x ↦ !test x := by
  fun_induction bisect test items with
  | case1 items hd =>
    have hl := drop_eq_nil_iff.mp hd
    have hn : items = [] := length_eq_zero_iff.mp (by omega)
    rw [hn, findIdx_nil]
  | case2 items middle rest hd ht ih =>
    have hi : items.take (items.length / 2) ++ middle :: rest = items := by
      rw [← hd, take_append_drop]
    rw [← hi] at h
    obtain ⟨-, hr, hb⟩ := pairwise_append.mp h
    -- The middle passes, so all before it pass and the search goes on behind it.
    have hp : (items.take (items.length / 2)).findIdx (fun x ↦ !test x) = items.length / 2 := by
      rw [findIdx_eq_length.mpr fun x hx ↦ by simp [hb x hx middle mem_cons_self ht], length_take]
      omega
    conv_rhs => rw [← hi, findIdx_append, hp, findIdx_cons, ht, length_take, if_neg (by omega)]
    rw [ih hr.of_cons, Bool.not_true, cond_false]
    omega
  | case3 items middle rest hd ht ih =>
    have hl := (items.take (items.length / 2)).findIdx_le_length (p := fun x ↦ !test x)
    rw [ih h.take]
    conv_rhs => rw [← take_append_drop (items.length / 2) items, hd, findIdx_append, findIdx_cons]
    simp only [ht, Bool.not_false, cond_true, Nat.zero_add]
    split_ifs
    · rfl
    · omega

/-- The cut before the scan takes away only annotations that do not touch the offset. -/
theorem Sorted.findAt_eq (h : set.Sorted) (off : Nat) :
    set.findAt off = (set.items.filter fun x ↦ x.span.touches off).foldl deeper none := by
  have hc := h.takeWhile_start_lt (off + 1)
  simp only [Nat.lt_succ_iff] at hc
  have hb : set.items.Pairwise fun x y ↦
      decide (y.span.start ≤ off) = true → decide (x.span.start ≤ off) = true := by
    refine h.imp fun {x y} hxy ↦ ?_
    simp only [decide_eq_true_eq]
    exact hxy.trans
  rw [findAt, bisect_eq_findIdx hb, ← takeWhile_eq_take_findIdx_not, hc, filter_filter]
  congr 2
  funext x
  grind [touches]

/-- The annotation that no other of a list lies deeper than, the last one of its span. -/
structure IsDeepest (xs : List (Annotated α)) (found : Annotated α) : Prop where
  deepest : ∀ x ∈ xs, x.span.isWithin found.span = false
  last : (xs.filter fun x ↦ x.span = found.span).getLast? = some found

namespace IsDeepest

variable {xs : List (Annotated α)} {x y found : Annotated α}

theorem mem (h : IsDeepest xs found) : found ∈ xs :=
  (mem_filter.mp (mem_of_getLast? h.last)).1

theorem unique (hx : IsDeepest xs x) (hy : IsDeepest xs y) : x = y := by
  have hs := eq_of_isWithin_eq_false (hy.deepest x hx.mem) (hx.deepest y hy.mem)
  exact Option.some.inj (hx.last.symm.trans (hs ▸ hy.last))

theorem append_self (h : ∀ y ∈ xs, y.span.isWithin x.span = false) : IsDeepest (xs ++ [x]) x := by
  refine ⟨fun y hy ↦ ?_, by simp⟩
  rcases mem_append.mp hy with hy | hy
  · exact h y hy
  · simp [mem_singleton.mp hy, isWithin]

theorem append (h : IsDeepest xs found) (hw : found.span.isWithin x.span = true) :
    IsDeepest (xs ++ [x]) found := by
  rw [isWithin_iff] at hw
  refine ⟨fun y hy ↦ ?_, ?_⟩
  · rcases mem_append.mp hy with hy | hy
    · exact h.deepest y hy
    · rw [mem_singleton.mp hy, isWithin_eq_false_iff]
      omega
  · rw [filter_append, filter_cons_of_neg, filter_nil, append_nil, h.last]
    rw [decide_eq_true_eq]
    intro he
    rw [he] at hw
    omega

end IsDeepest

variable {xs : List (Annotated α)} {found : Annotated α}

theorem exists_foldl_deeper (h : xs ≠ []) :
    ∃ f, xs.foldl deeper none = some f ∧ IsDeepest xs f := by
  -- The scan keeps what it has seen, so the induction takes the last annotation off.
  induction xs using reverseRecOn with
  | nil => exact absurd rfl h
  | append_singleton xs x ih =>
    rw [foldl_append, foldl_cons, foldl_nil]
    rcases eq_or_ne xs [] with rfl | hx
    · exact ⟨x, rfl, .append_self (by simp)⟩
    · obtain ⟨best, hb, hd⟩ := ih hx
      rw [hb, deeper]
      split_ifs with hw
      · exact ⟨best, rfl, hd.append hw⟩
      · refine ⟨x, rfl, .append_self fun y hy ↦ ?_⟩
        have hy := hd.deepest y hy
        rw [isWithin_iff] at hw
        rw [isWithin_eq_false_iff] at hy ⊢
        omega

theorem foldl_deeper_eq_none_iff : xs.foldl deeper none = none ↔ xs = [] := by
  refine ⟨fun h ↦ by_contra fun hx ↦ ?_, fun h ↦ h ▸ rfl⟩
  obtain ⟨f, hf, -⟩ := exists_foldl_deeper hx
  cases h.symm.trans hf

theorem foldl_deeper_eq_some_iff : xs.foldl deeper none = some found ↔ IsDeepest xs found := by
  refine ⟨fun h ↦ ?_, fun h ↦ ?_⟩
  · have hx : xs ≠ [] := by
      rintro rfl
      cases h
    obtain ⟨f, hf, hd⟩ := exists_foldl_deeper hx
    exact Option.some.inj (hf.symm.trans h) ▸ hd
  · obtain ⟨f, hf, hd⟩ := exists_foldl_deeper (ne_nil_of_mem h.mem)
    rw [hf, hd.unique h]

theorem mem_of_findAt {off : Nat} (h : set.findAt off = some found) : found ∈ set.items :=
  mem_of_mem_take (mem_filter.mp (foldl_deeper_eq_some_iff.mp h).mem).1

section Alone

variable {set : RangeSet α} {x : Annotated α} (hs : set.Sorted) (hm : x ∈ set.items)

include hs hm

/-- An annotation that touches an offset is found there, if no other starts between its start and
the offset. -/
theorem findAt_eq_some {off : Nat} (ht : x.span.touches off = true)
    (hla : ∀ o ∈ set.items, o.span.start ≤ off → o.span.start ≤ x.span.start)
    (hon : ∀ o ∈ set.items, o.span.start = x.span.start → o = x) :
    set.findAt off = some x := by
  rw [hs.findAt_eq, foldl_deeper_eq_some_iff]
  refine ⟨fun y hy ↦ ?_, ?_⟩
  · obtain ⟨hy, hyt⟩ := mem_filter.mp hy
    have hl := hla y hy (touches_iff.mp hyt).1
    rw [isWithin_eq_false_iff]
    rintro (h | ⟨h, hst⟩)
    · omega
    · rw [hon y hy h.symm] at hst
      omega
  · have hx : x ∈ (set.items.filter fun y ↦ y.span.touches off).filter
        fun y ↦ y.span = x.span := by simp [hm, ht]
    rw [getLast?_eq_some_getLast (ne_nil_of_mem hx)]
    have hf := mem_filter.mp (getLast_mem (ne_nil_of_mem hx))
    rw [hon _ (mem_filter.mp hf.1).1 (congrArg start (of_decide_eq_true hf.2))]

/-- The annotation that starts at an offset is found there, if it is the only one to start there. -/
theorem findAt_start (hsp : x.span.start ≤ x.span.stop)
    (ho : ∀ o ∈ set.items, o.span.start = x.span.start → o = x) :
    set.findAt x.span.start = some x :=
  findAt_eq_some hs hm (by simp [touches, hsp]) (fun _ _ hl ↦ hl) ho

end Alone

/-- Sorting and the cut lose nothing against a scan of the list as given. -/
theorem findAt_ofList (items : List (Annotated α)) (off : Nat) :
    (ofList items).findAt off = (items.filter fun x ↦ x.span.touches off).foldl deeper none := by
  rw [(sorted_ofList items).findAt_eq]
  refine Option.ext fun found ↦ ?_
  have hl : ((ofList items).items.filter fun x ↦ x.span.touches off).filter
      (fun x ↦ x.span = found.span) =
        (items.filter fun x ↦ x.span.touches off).filter fun x ↦ x.span = found.span := by
    rw [filter_comm, filter_ofList, filter_comm]
  rw [foldl_deeper_eq_some_iff, foldl_deeper_eq_some_iff]
  refine ⟨fun h ↦ ⟨fun x hx ↦ h.deepest x ?_, hl ▸ h.last⟩,
    fun h ↦ ⟨fun x hx ↦ h.deepest x ?_, hl.symm ▸ h.last⟩⟩
  · exact ((perm_ofList items).filter _).mem_iff.mpr hx
  · exact ((perm_ofList items).filter _).mem_iff.mp hx

/-- The innermost annotation at an offset: none where no annotation touches it; else, of those that
do, one that starts last, of these one that stops first, and of equal spans the last one given. It
is what a scan of the list as given keeps. -/
theorem findAt_innermost (items : List (Annotated α)) (off : Nat) :
    ((ofList items).findAt off = none ↔ ∀ x ∈ items, ¬(x.span.start ≤ off ∧ off ≤ x.span.stop)) ∧
    (∀ found, (ofList items).findAt off = some found →
      (found.span.start ≤ off ∧ off ≤ found.span.stop) ∧
      (∀ x ∈ items, x.span.start ≤ off → off ≤ x.span.stop → x.span.start ≤ found.span.start ∧
        (x.span.start = found.span.start → found.span.stop ≤ x.span.stop)) ∧
      ∃ before after, items = before ++ found :: after ∧ ∀ x ∈ after, x.span ≠ found.span) ∧
    (ofList items).findAt off = (items.filter fun x ↦ x.span.touches off).foldl deeper none := by
  refine ⟨?_, fun found h ↦ ?_, findAt_ofList items off⟩
  · simp [findAt_ofList, foldl_deeper_eq_none_iff, touches]
  rw [findAt_ofList, foldl_deeper_eq_some_iff] at h
  have ht := (mem_filter.mp h.mem).2
  refine ⟨Span.touches_iff.mp ht, fun x hx hst hsp ↦ ?_, ?_⟩
  · have hn := h.deepest x (mem_filter.mpr ⟨hx, touches_iff.mpr ⟨hst, hsp⟩⟩)
    rw [isWithin_eq_false_iff] at hn
    omega
  · obtain ⟨ys, hys⟩ := getLast?_eq_some_iff.mp h.last
    rw [filter_filter, filter_eq_append_iff] at hys
    obtain ⟨front, back, rfl, -, hb⟩ := hys
    obtain ⟨middle, after, rfl, -, -, ha⟩ := filter_eq_cons_iff.mp hb
    refine ⟨front ++ middle, after, by simp, fun x hx he ↦ ?_⟩
    exact filter_eq_nil_iff.mp ha x hx (by simp [he, ht])

end RangeSet

end StoryScript
