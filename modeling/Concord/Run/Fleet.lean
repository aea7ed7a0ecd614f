import Concord.Liveness.Monitor
import Concord.Net.Fabric
import Concord.Run.LiveNode

/-!
Running members on a network, with or without monitors on a network of their own. A monitor that
finds a member failed removes it from its own node. Member `n` is at port `n` of this machine and
has the endpoint `n - 1`.
-/

namespace Concord

structure Fleet where
  fabric : Fabric
  nodes : List LiveNode
  monitorFabric : Fabric
  /-- One for every node, or none at all. -/
  monitors : List Monitor
  /-- Failures found and not yet collected: the rank of the finder, and the member found. -/
  failures : List (Nat × MemberId)

namespace Fleet

variable [Timer]

def addressOfIndex (i : Nat) : Address := .loopback (i + 1).toUInt16

def attachAll (f : Fabric) (size : Nat) : Fabric :=
  (List.range size).foldl (fun f i => (f.attach (addressOfIndex i)).1) f

/-- Hands the copies that have arrived to their endpoints. -/
def handOver {σ : Type} (receive : σ → Arrival → σ) (parts : List σ) (flights : List Fabric.Flight) :
    List σ :=
  flights.foldl (fun parts x =>
    parts.modify x.endpoint fun p => receive p (.datagram x.source x.bytes)) parts

/-- Sends what every part has to send, from the address of its index. -/
def sendAll {σ : Type} (sent : σ → List Sent) (now : Instant) (parts : List σ) (f : Fabric) :
    Fabric :=
  (parts.mapIdx fun i p => (i, sent p)).foldl (fun f (i, l) =>
    l.foldl (fun f s => f.send now (addressOfIndex i) s.target s.bytes) f) f

/-- What has arrived is handled by the nodes, and what they send goes out. -/
def turnNodes (now : Instant) (f : Fleet) : Fleet :=
  let (fabric, arrived) := f.fabric.arrivals now
  let nodes := (handOver LiveNode.arrive f.nodes arrived).map (LiveNode.settle now)
  { f with
    fabric := sendAll LiveNode.sent now nodes fabric
    nodes := nodes.map fun l => { l with sent := [] } }

/-- The same for the monitors; the failures that they find are applied to their nodes. -/
def turnMonitors (now : Instant) (f : Fleet) : Fleet :=
  let (fabric, arrived) := f.monitorFabric.arrivals now
  let monitors := (handOver Monitor.arrive f.monitors arrived).map (Monitor.settle now)
  let found := (monitors.mapIdx fun i m => m.failed.map fun member => (i, member)).flatten
  { f with
    monitorFabric := sendAll Monitor.sent now monitors fabric
    monitors := monitors.map Monitor.collected
    nodes := found.foldl (fun nodes (i, member) => nodes.modify i (·.remove member)) f.nodes
    failures := f.failures ++ found.map fun (i, member) => (i + 1, member) }

def busy (now : Instant) (f : Fleet) : Bool :=
  f.fabric.flights.any (·.due ≤ now) || f.monitorFabric.flights.any (·.due ≤ now)

/-- Nodes and monitors take turns until nothing more arrives at this instant. Every datagram causes
at most a few others, and each sending loop sends once an instant, so the turns come to an end;
the bound is far above any run's number of turns. -/
def turns (now : Instant) : Nat → Fleet → Fleet
  | 0, f => f
  | n + 1, f =>
    let f := (f.turnMonitors now).turnNodes now
    if f.busy now then turns now n f else f

def settle (now : Instant) (f : Fleet) : Fleet := f.turns now 100000

def due? (f : Fleet) : Option Instant :=
  earlier? (earlier? f.fabric.due? f.monitorFabric.due?)
    (earlier? (f.nodes.foldl (fun t l => earlier? t l.due?) none)
      (f.monitors.foldl (fun t m => earlier? t m.due?) none))

def startMonitors (settings : Settings) (size : Nat) : List Monitor :=
  (Group.seats size).map fun group => .start settings group 0

def start (settings : Settings) (size : Nat) (impairment : Option Fabric.Impairment)
    (monitored : Bool) (draws : Draws) : Except NodeError Fleet := do
  let nodes ← LiveNode.startAll settings size draws
  let fabric := attachAll (.start impairment) size
  let fleet : Fleet :=
    { fabric, nodes, monitorFabric := fabric
      monitors := if monitored then startMonitors settings size else []
      failures := [] }
  return fleet.settle 0

def modify (f : Fleet) (rank : Nat) (g : LiveNode → LiveNode) : Fleet :=
  { f with nodes := f.nodes.modify (rank - 1) g }

def multicast (f : Fleet) (now : Instant) (rank : Nat) (payload : UInt32) :
    Fleet × Option Exhausted :=
  ((f.modify rank fun l => (l.multicast payload).1).settle now,
    (f.nodes[rank - 1]?).bind fun l => (l.multicast payload).2)

def remove (f : Fleet) (now : Instant) (rank : Nat) (target : MemberId) : Fleet :=
  (f.modify rank (·.remove target)).settle now

/-- A member dies: its loops stop, and nothing reaches it any more. -/
def crash (f : Fleet) (now : Instant) (rank : Nat) : Fleet :=
  let address := addressOfIndex (rank - 1)
  let f := f.modify rank LiveNode.crash
  { f with
    fabric := f.fabric.detach address
    monitorFabric := f.monitorFabric.detach address
    monitors := f.monitors.modify (rank - 1) Monitor.crash }.settle now

def collected (f : Fleet) : Fleet :=
  { f with nodes := f.nodes.map LiveNode.collected, failures := [] }

end Fleet

end Concord
