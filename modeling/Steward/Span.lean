import Steward.Word

/-!
# Spans of time

A span is a count of nanoseconds. Whole seconds and the nanoseconds beyond them are its written
form, in which the seconds are a word.
-/

namespace Steward

/-- A length of time, also used for the time since the host was built. -/
structure Span where
  nanos : Nat
  deriving DecidableEq, Repr

namespace Span

/-- Nanoseconds in a second. -/
def nanosPerSecond : Nat := 1000000000

/-- Nanoseconds in a millisecond. -/
def nanosPerMilli : Nat := 1000000

/-- A span of whole seconds. -/
def ofSeconds (seconds : Nat) : Span := ⟨nanosPerSecond * seconds⟩

/-- A span of whole milliseconds. -/
def ofMillis (millis : Nat) : Span := ⟨nanosPerMilli * millis⟩

/-- The span of some seconds and nanoseconds; whole seconds among the nanoseconds are carried. -/
def ofParts? (seconds nanos : Nat) : Option Span :=
  if seconds + nanos / nanosPerSecond ≤ wordMax then
    some ⟨nanosPerSecond * seconds + nanos⟩
  else none

/-- The whole seconds of a span. -/
def seconds (s : Span) : Nat := s.nanos / nanosPerSecond

/-- The nanoseconds of a span beyond its whole seconds. -/
def subsecond (s : Span) : Nat := s.nanos % nanosPerSecond

/-- The whole milliseconds of a span, at most the greatest word. -/
def millis (s : Span) : Nat := min (s.nanos / nanosPerMilli) wordMax

/-- The milliseconds of a span, rounded up. -/
def ceilMillis (s : Span) : Nat := (s.nanos + (nanosPerMilli - 1)) / nanosPerMilli

/-- The time from one point to another, zero when the other is earlier. -/
def since (later earlier : Span) : Span := ⟨later.nanos - earlier.nanos⟩

/-- The first point that a clock cannot hold which has run for some time at point zero: its seconds
are a signed word. -/
def clockEnd (uptime : Span) : Span := (ofSeconds signBound).since uptime

/-- The point a span after another one, unless a clock that ends at a point cannot hold it. -/
def after? (point length clockEnd : Span) : Option Span :=
  if point.nanos + length.nanos < clockEnd.nanos then some ⟨point.nanos + length.nanos⟩ else none

instance : LE Span := ⟨fun a b => a.nanos ≤ b.nanos⟩
instance : LT Span := ⟨fun a b => a.nanos < b.nanos⟩
instance (a b : Span) : Decidable (a ≤ b) := inferInstanceAs (Decidable (a.nanos ≤ b.nanos))
instance (a b : Span) : Decidable (a < b) := inferInstanceAs (Decidable (a.nanos < b.nanos))
instance : Inhabited Span := ⟨⟨0⟩⟩

end Span

end Steward
