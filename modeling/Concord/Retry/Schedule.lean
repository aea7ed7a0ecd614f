import Concord.Time.Span

/-!
The pauses between rounds of retransmission: each is twice the one before, and the schedule starts
over where doubling would exceed the ceiling.
-/

namespace Concord

structure Schedule where
  current : Span
  base : Span
  ceiling : Span
  base_pos : 0 < base.nanos
  base_le_ceiling : base.nanos ≤ ceiling.nanos

inductive ScheduleError where
  | zeroBase
  | ceilingBelowBase
deriving DecidableEq

def ScheduleError.message : ScheduleError → String
  | .zeroBase => "assertion failed: !base.is_zero()"
  | .ceilingBelowBase => "assertion failed: ceiling >= base"

namespace Schedule

def start (base ceiling : Span) : Except ScheduleError Schedule :=
  if base_pos : 0 < base.nanos then
    if base_le_ceiling : base.nanos ≤ ceiling.nanos then
      .ok ⟨base, base, ceiling, base_pos, base_le_ceiling⟩
    else .error .ceilingBelowBase
  else .error .zeroBase

/-- The next pause, and the schedule after it. -/
def next (s : Schedule) : Span × Schedule :=
  let doubled := s.current.double
  let following := if s.ceiling.nanos < doubled.nanos then s.base else doubled
  (s.current, { s with current := following })

def reset (s : Schedule) : Schedule := { s with current := s.base }

end Schedule

end Concord
