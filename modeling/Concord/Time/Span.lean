/-!
Spans of time, in whole nanoseconds up to the greatest span that has its seconds in 64 bits.
Doubling stops at that greatest span.
-/

namespace Concord

/-- A point in time, in nanoseconds since the start of the run. -/
abbrev Instant := Nat

/-- One nanosecond less than 2^64 seconds. -/
def Span.maxNanos : Nat := UInt64.size * 1000000000 - 1

structure Span where
  nanos : Nat
  le_max : nanos ≤ Span.maxNanos

namespace Span

instance : DecidableEq Span := fun s t =>
  if h : s.nanos = t.nanos then
    isTrue (by cases s; cases t; cases h; rfl)
  else isFalse (fun e => h (congrArg nanos e))

/-- Anything longer than the greatest span becomes the greatest span. -/
def ofNanos (n : Nat) : Span := ⟨min n maxNanos, Nat.min_le_right _ _⟩

def ofMillis (n : Nat) : Span := ofNanos (n * 1000000)

def ofSeconds (n : Nat) : Span := ofNanos (n * 1000000000)

def zero : Span := ofNanos 0

def max : Span := ofNanos maxNanos

instance : Inhabited Span := ⟨zero⟩

def isZero (s : Span) : Bool := s.nanos = 0

def double (s : Span) : Span := ofNanos (2 * s.nanos)

/-- The number of whole seconds, and the nanoseconds beyond them. -/
def parts (s : Span) : Nat × Nat := (s.nanos / 1000000000, s.nanos % 1000000000)

/-- A whole part and a fraction of `width` decimal places, without trailing zeros. -/
def withFraction (whole fraction width : Nat) : String :=
  if fraction = 0 then toString whole
  else
    let digits := toString fraction
    let padded := List.replicate (width - digits.length) '0' ++ digits.toList
    toString whole ++ "." ++ String.ofList (padded.reverse.dropWhile (· = '0')).reverse

/-- The largest unit with a whole part that is not zero, and a decimal fraction of it. -/
def text (s : Span) : String :=
  if s.nanos ≥ 1000000000 then
    withFraction (s.nanos / 1000000000) (s.nanos % 1000000000) 9 ++ "s"
  else if s.nanos ≥ 1000000 then
    withFraction (s.nanos / 1000000) (s.nanos % 1000000) 6 ++ "ms"
  else if s.nanos ≥ 1000 then
    withFraction (s.nanos / 1000) (s.nanos % 1000) 3 ++ "µs"
  else withFraction s.nanos 0 0 ++ "ns"

end Span

namespace Instant

def ofMillis (n : Nat) : Instant := n * 1000000

def millis (t : Instant) : Nat := t / 1000000

end Instant

end Concord
