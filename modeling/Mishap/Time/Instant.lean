import Mishap.Time.Calendar
import Mishap.Time.Span

/-!
# Instants

An instant counts whole seconds from the start of 1970 in universal time and nanoseconds within
the second. A nanosecond count from `10 ^ 9` on stands for a leap second that follows the
fifty-ninth second of a minute.
-/

namespace Mishap.Time

/-- A point in time. -/
structure Instant where
  seconds : Int
  nanos : Nat
  deriving DecidableEq, Repr, Inhabited

/-- The fields of an instant on the universal-time clock. -/
structure Civil where
  date : Date
  hour : Nat
  minute : Nat
  second : Nat
  nanos : Nat
  deriving DecidableEq, Repr

namespace Civil

/-- The instant at which the clock shows these fields. -/
def toInstant (c : Civil) : Instant :=
  ⟨c.date.toDays * 86400 + c.hour * 3600 + c.minute * 60 + c.second, c.nanos⟩

end Civil

namespace Instant

/-- The clock fields of an instant. -/
def civil (t : Instant) : Civil :=
  let rest := (t.seconds % 86400).toNat
  { date := Date.ofDays (t.seconds / 86400), hour := rest / 3600, minute := rest / 60 % 60,
    second := rest % 60, nanos := t.nanos }

/-- The year is one that a time may have. -/
def inRange (t : Instant) : Bool :=
  (Date.mk Date.minYear 1 1).toDays * 86400 ≤ t.seconds &&
    t.seconds < (Date.mk (Date.maxYear + 1) 1 1).toDays * 86400

/-- Nanoseconds from the start of 1970. -/
def toNanos (t : Instant) : Int := t.seconds * 1000000000 + t.nanos

/-- The instant a span later. -/
def after (t : Instant) (s : Span) : Instant :=
  let nanos := t.nanos + s.nanos
  ⟨t.seconds + s.seconds + (nanos / 1000000000 : Nat), nanos % 1000000000⟩

/-- More than the span has passed from the first instant to the second. -/
def passed (since now : Instant) (s : Span) : Bool :=
  (s.toNanos : Int) < now.toNanos - since.toNanos

end Instant

end Mishap.Time
