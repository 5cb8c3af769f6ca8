import GraphTex.Text

/-!
# Spans

A span is a pair of byte offsets into a source. A span that stops before it starts covers nothing
and is kept as the empty span at its start.
-/

namespace GraphTex

/-- A range of byte offsets, from `start` up to but not including `stop`. -/
structure Span where
  start : Nat
  stop : Nat
  deriving DecidableEq, Repr, Inhabited

namespace Span

/-- The number of bytes covered. -/
def length (s : Span) : Nat := s.stop - s.start

/-- The span of a text that stands at an offset. -/
def ofText (start : Nat) (t : Text) : Span := ⟨start, start + t.bytes⟩

/-- The span of one byte. -/
def ofByte (start : Nat) : Span := ⟨start, start + 1⟩

/-- The same span with `stop` no smaller than `start`. -/
def normalize (s : Span) : Span := ⟨s.start, s.start + s.length⟩

theorem normalize_of_le {s : Span} (h : s.start ≤ s.stop) : s.normalize = s := by
  cases s with
  | mk start stop => simp_all [normalize, length]

end Span

end GraphTex
