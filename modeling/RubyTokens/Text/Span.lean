/-! Byte sizes and half-open byte ranges. A size is a natural number, and a range carries the proof
that its ends are in order, so no operation has to check it again. Numbers from outside are
arbitrary integers: reading them names the first thing that is wrong. -/

namespace RubyTokens

/-- What keeps integers from being a size or a range. -/
inductive SpanError where
  | negativeSize
  | negativePosition
  | reversed
  deriving DecidableEq, Repr

def SpanError.message : SpanError → String
  | .negativeSize => "TextSize cannot be negative"
  | .negativePosition => "TextRange positions cannot be negative"
  | .reversed => "TextRange invariant violated: start > end"

/-- A number of bytes: an offset or a length. -/
def readSize (n : Int) : Except SpanError Nat :=
  if n < 0 then .error .negativeSize else .ok n.toNat

def sizeText (n : Nat) : String := s!"TextSize({n})"

/-- The bytes from `start` up to, and without, `stop`. -/
structure Span where
  start : Nat
  stop : Nat
  start_le_stop : start ≤ stop := by omega
  deriving DecidableEq, Repr

namespace Span

/-- A negative end is reported before ends in the wrong order. -/
def ofInts (a b : Int) : Except SpanError Span :=
  if a < 0 ∨ b < 0 then .error .negativePosition
  else if h : a.toNat ≤ b.toNat then .ok ⟨a.toNat, b.toNat, h⟩
  else .error .reversed

def sized (offset length : Nat) : Span where
  start := offset
  stop := offset + length

def empty (offset : Nat) : Span := sized offset 0

def length (s : Span) : Nat := s.stop - s.start

def isEmpty (s : Span) : Bool := s.start == s.stop

def contains (outer inner : Span) : Bool := outer.start ≤ inner.start && inner.stop ≤ outer.stop

/-- The least range that contains both. -/
def cover (a b : Span) : Span where
  start := min a.start b.start
  stop := max a.stop b.stop
  start_le_stop := by have := a.start_le_stop; omega

/-- Ranges are ordered by where they start, then by where they stop. -/
def compare (a b : Span) : Ordering :=
  (Ord.compare a.start b.start).then (Ord.compare a.stop b.stop)

def text (s : Span) : String := s!"TextRange({s.start}, {s.stop})"

/-- The two ends as a pair. -/
def pairText (s : Span) : String := s!"({s.start}, {s.stop})"

@[simp] theorem start_sized (o n : Nat) : (sized o n).start = o := rfl

@[simp] theorem stop_sized (o n : Nat) : (sized o n).stop = o + n := rfl

@[simp] theorem start_cover (a b : Span) : (a.cover b).start = min a.start b.start := rfl

@[simp] theorem stop_cover (a b : Span) : (a.cover b).stop = max a.stop b.stop := rfl

theorem contains_iff {a b : Span} : a.contains b = true ↔ a.start ≤ b.start ∧ b.stop ≤ a.stop := by
  simp [contains]

theorem contains_cover {a b c : Span} :
    c.contains (a.cover b) = true ↔ c.contains a = true ∧ c.contains b = true := by
  simp only [contains_iff, start_cover, stop_cover]
  omega

end Span

end RubyTokens
