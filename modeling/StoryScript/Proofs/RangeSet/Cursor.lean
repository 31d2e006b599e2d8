import Mathlib.Order.Bounds.Basic
import StoryScript.Proofs.RangeSet

/-!
Runs of a cursor. A `Move` is one call that moves it; no move takes it backwards or out of its set
(`index_le_move`, `Within.move`), so no run does. What is left of a sorted set is sorted, so
`Cursor.seek` may halve it (`Within.isLeast_seek`), and a walk by `Cursor.next` lists it
(`walk_eq_drop`).
-/

namespace StoryScript

open List RangeSet

namespace Cursor

variable {α : Type} {set : RangeSet α} {cursor : Cursor α}

/-- One call that moves a cursor. -/
inductive Move where
  | seek (offset : Nat)
  | next

def move (cursor : Cursor α) : Move → Cursor α
  | .seek off => cursor.seek off
  | .next => cursor.next

/-- The cursor after moves. -/
def run (cursor : Cursor α) (moves : List Move) : Cursor α :=
  moves.foldl move cursor

theorem index_le_move (cursor : Cursor α) (m : Move) : cursor.index ≤ (cursor.move m).index := by
  cases m with
  | seek off => exact Nat.le_add_right _ _
  | next =>
    rw [move, next]
    split_ifs <;> simp

theorem index_le_run (cursor : Cursor α) (moves : List Move) :
    cursor.index ≤ (cursor.run moves).index := by
  induction moves generalizing cursor with
  | nil => exact le_rfl
  | cons m moves ih => exact (index_le_move cursor m).trans (ih (cursor.move m))

/-- A cursor of a set that stands on one of its annotations or right past them. -/
structure Within (set : RangeSet α) (cursor : Cursor α) : Prop where
  items : cursor.items = set.items
  index : cursor.index ≤ set.size

theorem within_ofSet (set : RangeSet α) : Within set (ofSet set) :=
  ⟨rfl, Nat.zero_le _⟩

namespace Within

theorem isValid_iff (h : Within set cursor) : cursor.isValid = true ↔ cursor.index < set.size := by
  rw [isValid, h.items, size, decide_eq_true_iff]

theorem next (h : Within set cursor) : Within set cursor.next := by
  rw [Cursor.next]
  split_ifs with hv
  · exact ⟨h.items, by rwa [h.items] at hv⟩
  · exact h

section Seek

variable (h : Within set cursor) (hs : set.Sorted) (off : Nat)

include h hs

/-- The halves of what is left of a sorted set are sorted, so the search among them is right. -/
theorem index_seek : (cursor.seek off).index =
    cursor.index + (set.items.drop cursor.index).findIdx fun x ↦ off ≤ x.span.start := by
  rw [seek, h.items, bisect_eq_findIdx]
  · simp only [← decide_not, Nat.not_lt]
  · refine (Pairwise.drop hs).imp fun {x y} hxy ↦ ?_
    simp only [decide_eq_true_eq]
    exact hxy.trans_lt

theorem isLeast_seek : IsLeast {i | cursor.index ≤ i ∧
    (i = set.size ∨ ∃ x, set.items[i]? = some x ∧ off ≤ x.span.start)} (cursor.seek off).index := by
  have hl := (set.items.drop cursor.index).findIdx_le_length (p := fun x ↦ off ≤ x.span.start)
  rw [h.index_seek hs]
  refine ⟨⟨Nat.le_add_right _ _, ?_⟩, ?_⟩
  · rcases hl.eq_or_lt with he | hlt
    · rw [he, length_drop]
      exact .inl (Nat.add_sub_cancel' h.index)
    · refine .inr ⟨_, getElem?_drop.symm.trans (getElem?_eq_getElem hlt), ?_⟩
      exact of_decide_eq_true (findIdx_getElem (w := hlt))
  · -- A place before the one found holds an annotation that the search passed over.
    rintro i ⟨hi, hx⟩
    by_contra hn
    have hk : i - cursor.index < (set.items.drop cursor.index).findIdx
      fun x ↦ off ≤ x.span.start := by omega
    rcases hx with rfl | ⟨x, hx, ho⟩
    · rw [length_drop] at hl
      exact hk.not_ge hl
    · have he : (set.items.drop cursor.index)[i - cursor.index]? = some x := by
        rw [getElem?_drop, Nat.add_sub_cancel' hi, hx]
      obtain ⟨_, rfl⟩ := List.getElem?_eq_some_iff.mp he
      exact of_decide_eq_false (not_of_lt_findIdx hk) ho

theorem seek : Within set (cursor.seek off) :=
  ⟨h.items, (h.isLeast_seek hs off).2 ⟨h.index, .inl rfl⟩⟩

end Seek

theorem move (h : Within set cursor) (hs : set.Sorted) (m : Move) : Within set (cursor.move m) := by
  cases m with
  | seek off => exact h.seek hs off
  | next => exact h.next

theorem run (h : Within set cursor) (hs : set.Sorted) (moves : List Move) :
    Within set (cursor.run moves) := by
  induction moves generalizing cursor with
  | nil => exact h
  | cons m moves ih => exact ih (h.move hs m)

end Within

/-- The annotations a cursor meets on its way to the end by `next`. -/
def walk (cursor : Cursor α) : List (Annotated α) :=
  match _h : cursor.current? with
  | none => []
  | some x => x :: cursor.next.walk
termination_by cursor.items.length - cursor.index
decreasing_by
  have hl := (List.getElem?_eq_some_iff.mp _h).1
  rw [next, if_pos hl]
  simp only
  omega

theorem walk_eq_drop (cursor : Cursor α) : cursor.walk = cursor.items.drop cursor.index := by
  fun_induction walk cursor with
  | case1 cursor hc => exact (drop_eq_nil_iff.mpr (getElem?_eq_none_iff.mp hc)).symm
  | case2 cursor x hc ih =>
    obtain ⟨hl, rfl⟩ := List.getElem?_eq_some_iff.mp hc
    rw [ih, drop_eq_getElem_cons hl, next, if_pos hl]

/-- Runs of a cursor over annotations given in any order. After any moves the cursor stands within
the set, and no later move takes it back; `next` takes a valid cursor on by one, and `seek` takes it
to the first annotation from there on that starts at or after the offset, past the end if none does.
A walk by `next` meets each annotation once, by start, then by stop, equal spans as given. -/
theorem run_advances (items : List (Annotated α)) (moves : List Move) :
    let set := ofList items
    let cursor := (ofSet set).run moves
    (cursor.current? = set.items[cursor.index]? ∧ cursor.index ≤ set.size) ∧
    (∀ later, cursor.index ≤ (cursor.run later).index) ∧
    (cursor.isValid = true ↔ cursor.index < set.size) ∧
    (cursor.isValid = true → cursor.next.index = cursor.index + 1) ∧
    (∀ off, IsLeast {i | cursor.index ≤ i ∧
      (i = set.size ∨ ∃ x, set.items[i]? = some x ∧ off ≤ x.span.start)} (cursor.seek off).index) ∧
    ((ofSet set).walk = set.items ∧ set.items.Perm items ∧
      (set.items.Pairwise fun x y ↦ x.span.start < y.span.start ∨
        x.span.start = y.span.start ∧ x.span.stop ≤ y.span.stop) ∧
      ∀ span, (set.items.filter fun x ↦ x.span = span) = items.filter fun x ↦ x.span = span) := by
  intro set cursor
  have hs := sorted_ofList items
  have h : Within set cursor := (within_ofSet set).run hs moves
  refine ⟨⟨by rw [current?, h.items], h.index⟩, index_le_run cursor, h.isValid_iff, fun hv ↦ ?_,
    h.isLeast_seek hs, walk_eq_drop _, perm_ofList items, ?_, filter_ofList items⟩
  · rw [next, if_pos (of_decide_eq_true hv)]
  · exact (pairwise_ofList items).imp Span.precedes_iff.mp

end Cursor

end StoryScript
