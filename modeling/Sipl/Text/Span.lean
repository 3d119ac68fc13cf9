namespace Sipl

/-! A span is a half-open range of UTF-8 byte offsets into one source text.  Offsets are stored in
32 bits by every consumer of a span, so a range built from a text saturates at `Span.limit`. -/

structure Span where
  start : Nat
  stop : Nat
  deriving DecidableEq, Inhabited

namespace Span

/-- The largest offset a span can hold. -/
def limit : Nat := 4294967295

/-- The empty span at the start of the text, used where nothing has been read yet. -/
def origin : Span := ⟨0, 0⟩

/-- The span of a byte range, with offsets past `limit` cut down to it. -/
def ofRange (start stop : Nat) : Span := ⟨min start limit, min stop limit⟩

/-- The empty span at one offset. -/
def point (offset : Nat) : Span := ⟨offset, offset⟩

def length (span : Span) : Nat := span.stop - span.start

def isEmpty (span : Span) : Bool := span.start == span.stop

def contains (span : Span) (offset : Nat) : Bool :=
  span.start ≤ offset && offset < span.stop

/-- The smallest span that covers both. -/
def merge (left right : Span) : Span :=
  ⟨min left.start right.start, max left.stop right.stop⟩

def text (span : Span) : String :=
  toString span.start ++ ".." ++ toString span.stop

end Span

/-- Where a token or a tree node stands: the line it is reported at and the bytes it covers.  Lines
are counted in 32 bits, as offsets are, but behind the largest line they start over from zero. -/
structure Site where
  line : Nat
  span : Span
  deriving DecidableEq, Inhabited

end Sipl
