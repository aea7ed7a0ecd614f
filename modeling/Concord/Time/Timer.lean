import Concord.Time.Span

/-!
The timers that a run has. They belong to the machine and not to the program, which relies on no
more of them than is said here. A timer waits for the whole of its span unless that is very long, and
for some time in any case. It goes off at the first reading of its clock that is not before the end
of its wait.
-/

namespace Concord

/-- The timers of a machine. -/
class Timer where
  /-- How long a timer waits that is set for a span. -/
  wait : Span → Span
  /-- The first reading of the timers' clock that is not before an instant. Timers go off at
  readings. -/
  roundUp : Instant → Instant
  /-- A timer that is set for no more than this waits for all of it. -/
  reach : Span
  wait_pos {s : Span} (h : 0 < s.nanos) : 0 < (wait s).nanos
  wait_eq {s : Span} (h : s.nanos ≤ reach.nanos) : wait s = s
  le_roundUp (t : Instant) : t ≤ roundUp t
  roundUp_mono {t u : Instant} (h : t ≤ u) : roundUp t ≤ roundUp u
  roundUp_roundUp (t : Instant) : roundUp (roundUp t) = roundUp t
  /-- A run starts at a reading. -/
  roundUp_zero : roundUp 0 = 0

namespace Instant

export Timer (roundUp le_roundUp roundUp_mono roundUp_roundUp roundUp_zero)

variable [Timer]

/-- When the wait of a timer is over that was set at `t` for a span. -/
def after (t : Instant) (s : Span) : Instant := t + (Timer.wait s).nanos

theorem lt_after {t : Instant} {pause : Span} (h : 0 < pause.nanos) : t < after t pause :=
  Nat.lt_add_of_pos_right (Timer.wait_pos h)

/-- Within reach nothing is cut off a wait. -/
theorem after_eq {s : Span} (near : s.nanos ≤ (Timer.reach).nanos) (t : Instant) :
    after t s = t + s.nanos := by
  rw [after, Timer.wait_eq near]

end Instant

end Concord
