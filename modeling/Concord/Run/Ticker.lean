import Concord.Time.Timer

/-!
A timer with a fixed period. It goes off at its start and then at every multiple of the period;
if it is looked at late, it goes off once for each time that has come. Its period is as long as a
timer waits that is set for it.
-/

namespace Concord

structure Ticker where
  next : Instant
  period : Span
  period_pos : 0 < period.nanos

namespace Ticker

/-- A timer without a period is none. -/
def start? [Timer] (now : Instant) (period : Span) : Option Ticker :=
  if h : 0 < period.nanos then some ⟨now, Timer.wait period, Timer.wait_pos h⟩ else none

/-- How often the timer goes off up to an instant. -/
def due (t : Ticker) (now : Instant) : Nat :=
  if now < t.next then 0 else (now - t.next) / t.period.nanos + 1

def skip (t : Ticker) (times : Nat) : Ticker := { t with next := t.next + times * t.period.nanos }

theorem skip_skip (t : Ticker) (times more : Nat) :
    (t.skip times).skip more = t.skip (times + more) := by
  rw [skip, skip, skip, Nat.add_mul, ← Nat.add_assoc]

end Ticker

end Concord
