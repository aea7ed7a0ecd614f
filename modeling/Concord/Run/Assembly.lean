import Concord.Rendezvous.Barrier
import Concord.Run.Clock
import Concord.Run.Fleet
import Concord.Time.Millis

/-!
Members at the barrier, on a network. All of them pass it unless a timer has no period.
-/

namespace Concord

structure Assembly where
  fabric : Fabric
  barriers : List Barrier

namespace Assembly

def turn (now : Instant) (a : Assembly) : Assembly :=
  let (fabric, arrived) := a.fabric.arrivals now
  let barriers := (Fleet.handOver (Barrier.arrive now) a.barriers arrived).map (Barrier.settle now)
  { fabric := Fleet.sendAll Barrier.sent now barriers fabric
    barriers := barriers.map Barrier.collected }

def turns (now : Instant) : Nat → Assembly → Assembly
  | 0, a => a
  | n + 1, a =>
    let a := a.turn now
    if a.fabric.flights.any (·.due ≤ now) then turns now n a else a

def settle (now : Instant) (a : Assembly) : Assembly := a.turns now 100000

def due? (a : Assembly) : Option Instant :=
  a.barriers.foldl (fun t b => earlier? t b.due?) a.fabric.due?

def start (size : Nat) (impairment : Option Fabric.Impairment) (interval : Span) : Assembly :=
  let barriers := (Group.seats size).map fun group => Barrier.start group interval 0
  Assembly.settle 0 ⟨Fleet.attachAll (.start impairment) size, barriers⟩

/-- How many members have passed the barrier. -/
def passed (a : Assembly) : Nat :=
  a.barriers.countP fun b => match b.gate with | .passed => true | _ => false

/-- When the answers to the first probes have arrived: a probe and its answer each take as long as
the network lets them. -/
def roundTrip : Option Fabric.Impairment → Instant
  | none => 0
  | some impairment => 2 * Instant.roundUp (Instant.after 0 impairment.latency)

/-- How many members have passed the barrier after the first probes and the answers to them. Nobody
waits longer: all probe each other at the start. -/
def gathered (size : Nat) (impairment : Option Fabric.Impairment) (interval : Span) : Nat :=
  let limit := roundTrip impairment
  (Clock.leap due? settle limit (limit + 1) (start size impairment interval)).passed

end Assembly

end Concord
