/-!
# Spans

A span is the range of bytes that a piece of source text takes, from its first
byte up to the byte after its last one.  This module holds the type and the one
operation that trees need of it: the least span that covers two others.
-/

namespace TagLang

/-- The bytes from `start` up to, and without, `stop`. -/
structure Span where
  start : Nat
  stop : Nat
  deriving DecidableEq, Repr, Inhabited

namespace Span

/-- The least range that covers both spans. -/
def hull (a b : Span) : Span :=
  ⟨min a.start b.start, max a.stop b.stop⟩

/-- The empty span at a byte offset. -/
def point (offset : Nat) : Span :=
  ⟨offset, offset⟩

end Span

end TagLang
