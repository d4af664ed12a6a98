/-!
# Spans

A span is a half-open range of byte positions in a source file.  The nodes of the term graph carry
no positions of their own, since one node may stand for many places in the source; spans travel
with diagnostics and with the current location of the context instead.

Positions are 32-bit words.  Nothing forces `start ≤ stop`: a span whose end lies before its start
is empty and has length zero.
-/

set_option autoImplicit false
namespace SemanticCore

/-- A range of byte positions in a source file. -/
structure Span where
  /-- The position of the first byte. -/
  start : UInt32
  /-- The position after the last byte. -/
  stop : UInt32
deriving DecidableEq, Inhabited

namespace Span

/-- The span of a construct that has no place in the source. -/
def dummy : Span := ⟨0, 0⟩

/-- The number of bytes covered, zero for a span that ends before it starts. -/
def length (s : Span) : UInt32 :=
  if s.start ≤ s.stop then s.stop - s.start else 0

/-- A span that covers no byte. -/
def isEmpty (s : Span) : Bool :=
  s.stop ≤ s.start

/-- The smallest span covering both arguments. -/
def merge (a b : Span) : Span :=
  ⟨min a.start b.start, max a.stop b.stop⟩

/-- The span as `start..stop`. -/
def text (s : Span) : String :=
  s.start.toNat.repr ++ ".." ++ s.stop.toNat.repr

end Span
end SemanticCore
