import Concord.Group.Basic
import Concord.Signal

/-!
What a member knows of the others before the start: who answered its probe, and whose probe it
has heard.
-/

namespace Concord

structure Probe where
  answeredBy : Roll MemberId
  heardFrom : Roll MemberId

namespace Probe

def none : Probe := ⟨.empty, .empty⟩

instance : Inhabited Probe := ⟨none⟩

/-- Everyone else is known to be up, and to know that this member is up. -/
def complete (p : Probe) (others : List MemberId) : Bool :=
  others.all fun m => decide (m ∈ p.answeredBy) && decide (m ∈ p.heardFrom)

/-- The members that are still to be probed. -/
def silent (p : Probe) (others : List MemberId) : List MemberId :=
  others.filter fun m => m ∉ p.answeredBy

/-- Takes a signal. A probe is answered to where it came from, however often it comes. Signals in
the name of this member or of none, and heartbeats, are ignored. -/
def hear (p : Probe) (g : Group) (source : Address) (s : Signal) :
    Probe × Option (Address × Bytes) :=
  if g.contains s.member ∧ s.member ≠ g.self then
    match s with
    | .alive m =>
      ({ p with heardFrom := p.heardFrom.insert m },
        some (source, (Signal.aliveAnswer g.self).encode))
    | .aliveAnswer m => ({ p with answeredBy := p.answeredBy.insert m }, .none)
    | .heartbeat _ => (p, .none)
  else (p, .none)

/-- The probes of one round. -/
def round (p : Probe) (g : Group) : List (Address × Bytes) :=
  ((p.silent g.others).filterMap g.addressOf).map fun a => (a, (Signal.alive g.self).encode)

end Probe

end Concord
