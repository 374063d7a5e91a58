/-!
Byte ranges of a source text.
-/

namespace Erasure

/-- The half-open byte range from `start` to `stop`. -/
structure Span where
  start : Nat
  stop : Nat
  deriving DecidableEq, Inhabited

namespace Span

/-- The empty range at a position. -/
def point (pos : Nat) : Span := ⟨pos, pos⟩

def length (s : Span) : Nat := s.stop - s.start

def isEmpty (s : Span) : Bool := s.stop ≤ s.start

def contains (s : Span) (pos : Nat) : Bool := s.start ≤ pos && pos < s.stop

/-- The smallest range that covers both. -/
def union (s t : Span) : Span := ⟨min s.start t.start, max s.stop t.stop⟩

end Span
end Erasure
