import Concord.Retry.Schedule

/-!
What stops a part of a member when it starts: timers need a period, and queues between the parts
need room, but not more than can be counted.
-/

namespace Concord

inductive StartFault where
  | schedule (e : ScheduleError)
  | zeroPeriod
  | noRoom
  | tooMuchRoom
deriving DecidableEq

/-- The greatest room of a queue: the greatest 64-bit number without its three lowest bits. -/
def greatestRoom : Nat := (UInt64.size - 1) / 8

def checkRoom (room : Nat) : Except StartFault Unit :=
  if room = 0 then .error .noRoom
  else if greatestRoom < room then .error .tooMuchRoom
  else .ok ()

end Concord
