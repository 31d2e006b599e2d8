import StoryScript.Span

/-!
Annotations in the order of their spans: by start, then by stop, equal spans in the order in
which they were given. `RangeSet.findAt` is the innermost annotation at an offset, and a `Cursor`
walks the set forward.
-/

namespace StoryScript

namespace Span

/-- Whether one span stands no later than another: by start, then by stop. -/
def precedes (first second : Span) : Bool :=
  first.start < second.start || (first.start == second.start && first.stop ≤ second.stop)

/-- Whether one span lies deeper than another: it starts later, or starts there and stops
earlier. -/
def isWithin (inner outer : Span) : Bool :=
  outer.start < inner.start || (outer.start == inner.start && inner.stop < outer.stop)

end Span

/-- The annotations of a text, in span order when made by `RangeSet.ofList`. -/
structure RangeSet (α : Type) where
  items : List (Annotated α)
deriving DecidableEq, Inhabited

namespace RangeSet

variable {α : Type}

def empty : RangeSet α := ⟨[]⟩

/-- The annotations of a list, which may stand there in any order. -/
def ofList (items : List (Annotated α)) : RangeSet α :=
  ⟨items.mergeSort fun first second => first.span.precedes second.span⟩

def size (set : RangeSet α) : Nat :=
  set.items.length

def isEmpty (set : RangeSet α) : Bool :=
  set.items.isEmpty

/-- Keeps the deeper of two annotations, the later one if neither is deeper. -/
def deeper (best : Option (Annotated α)) (next : Annotated α) : Option (Annotated α) :=
  match best with
  | none => some next
  | some found => if found.span.isWithin next.span then some found else some next

/-- How many items stand before the first that fails a test, found by halving. Those that pass have
to stand before those that fail. -/
def bisect (test : α → Bool) (items : List α) : Nat :=
  match h : items.drop (items.length / 2) with
  | [] => 0
  | middle :: rest =>
    if test middle then items.length / 2 + 1 + bisect test rest
    else bisect test (items.take (items.length / 2))
termination_by items.length
decreasing_by
  all_goals
    have hl := congrArg List.length h
    simp only [List.length_drop, List.length_cons, List.length_take] at hl ⊢
    omega

/-- The innermost annotation that touches an offset, the last one given among equal spans. Only
annotations that start at or before the offset are looked at. -/
def findAt (set : RangeSet α) (offset : Nat) : Option (Annotated α) :=
  let reached := set.items.take (bisect (fun item => item.span.start ≤ offset) set.items)
  (reached.filter fun item => item.span.touches offset).foldl deeper none

end RangeSet

/-- A place in a range set that only moves forward. -/
structure Cursor (α : Type) where
  items : List (Annotated α)
  index : Nat

namespace Cursor

variable {α : Type}

/-- The cursor on the first annotation of a set. -/
def ofSet (set : RangeSet α) : Cursor α :=
  ⟨set.items, 0⟩

def current? (cursor : Cursor α) : Option (Annotated α) :=
  cursor.items[cursor.index]?

def isValid (cursor : Cursor α) : Bool :=
  cursor.index < cursor.items.length

/-- Moves on to the first annotation, from here on, that starts at or after an offset. -/
def seek (cursor : Cursor α) (offset : Nat) : Cursor α :=
  let rest := cursor.items.drop cursor.index
  { cursor with index := cursor.index + RangeSet.bisect (·.span.start < offset) rest }

/-- Moves on by one annotation; past the end it stays. -/
def next (cursor : Cursor α) : Cursor α :=
  if cursor.index < cursor.items.length then { cursor with index := cursor.index + 1 } else cursor

end Cursor

end StoryScript
