import Concord.Draws
import Concord.Settings

/-!
Artificial loss of incoming records and delay of replies, decided by random numbers.
-/

namespace Concord

structure Faults where
  dropRate : Float
  replyDelay : Span
  delayProbability : Float

namespace Faults

def ofSettings (s : Settings) : Faults := ⟨s.dropRate, s.replyDelay, s.delayProbability⟩

/-- Whether an incoming record is discarded. Without a drop rate nothing is drawn. -/
def drops (f : Faults) (d : Draws) : Bool × Draws :=
  if f.dropRate ≤ 0 then (false, d)
  else
    let (u, d) := d.next
    (decide (u < f.dropRate), d)

/-- How long a reply is held back. Without a delay nothing is drawn. -/
def holds (f : Faults) (d : Draws) : Span × Draws :=
  if f.replyDelay.isZero then (.zero, d)
  else
    let (u, d) := d.next
    (if u < f.delayProbability then f.replyDelay else .zero, d)

end Faults

end Concord
