/-!
# Places in a source text

Everything read from a menu definition, and every fault found in it, points back at the text: a
`Span` is a range of byte offsets, and a `Place` is a span together with the line it lies on.
-/

namespace SoftMenu

/-- A range `[start, stop)` of byte offsets into the UTF-8 form of a source text. -/
structure Span where
  /-- The offset of the first byte. -/
  start : Nat
  /-- The offset one past the last byte. -/
  stop : Nat
deriving DecidableEq, Repr, Inhabited

namespace Span

/-- The range of no bytes at an offset. -/
def empty (offset : Nat) : Span := ⟨offset, offset⟩

/-- Two bounds of which the second lies before the first. -/
structure Reversed where
  /-- The offset given for the first byte. -/
  start : Nat
  /-- The smaller offset given for the end. -/
  stop : Nat
deriving DecidableEq, Repr

/-- The wording of the fault. -/
def Reversed.message (fault : Reversed) : String :=
  s!"Span end ({fault.stop}) < start ({fault.start})"

/-- The span with the given bounds, which must be in order. -/
def ofBounds (start stop : Nat) : Except Reversed Span :=
  if stop < start then .error ⟨start, stop⟩ else .ok ⟨start, stop⟩

/-- The part of a span that lies in a text of the given length in bytes. -/
def clamp (span : Span) (length : Nat) : Span :=
  let start := min span.start length
  ⟨start, max (min span.stop length) start⟩

end Span

/-- A span of a source text and the line it lies on. -/
structure Place where
  /-- The line, counted from 1. -/
  line : Nat
  /-- The bytes. -/
  span : Span
deriving DecidableEq, Repr, Inhabited

end SoftMenu
