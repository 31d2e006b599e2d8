/-!
Spans of bytes in a text, and values attached to them.
-/

namespace StoryScript

/-- The bytes from `start` up to, not including, `stop`. -/
structure Span where
  start : Nat
  stop : Nat
deriving DecidableEq, Inhabited

namespace Span

def length (span : Span) : Nat :=
  span.stop - span.start

def isEmpty (span : Span) : Bool :=
  span.stop ≤ span.start

/-- A caret right behind the last byte still touches the span. -/
def touches (span : Span) (offset : Nat) : Bool :=
  span.start ≤ offset && offset ≤ span.stop

end Span

/-- A value attached to a span of a text. -/
structure Annotated (α : Type) where
  span : Span
  value : α
deriving DecidableEq, Inhabited

end StoryScript
