/-!
# Spans of source text

A span is a range of byte offsets, its end not included.
-/

namespace Shading

structure Span where
  start : Nat
  stop : Nat
deriving DecidableEq

namespace Span

def empty : Span := ⟨0, 0⟩

/-- The least span that contains both. -/
def join (a b : Span) : Span := ⟨min a.start b.start, max a.stop b.stop⟩

end Span

end Shading
