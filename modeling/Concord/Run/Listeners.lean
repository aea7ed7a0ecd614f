import Concord.Net.Fabric
import Concord.Run.Stage

/-!
Receiving loops on a network. Loops on one endpoint take turns: only the first that runs receives,
and it ends when it is cancelled or when its endpoint can receive nothing more.
-/

namespace Concord

structure Listeners.Loop where
  endpoint : Nat
  cancelled : Bool
  stage : Stage Unit

/-- A datagram received by a loop. -/
structure Listeners.Receipt where
  time : Instant
  address : Address
  source : Address
  bytes : Bytes

structure Listeners where
  fabric : Fabric
  /-- The address of every endpoint, in the order of attachment. -/
  addresses : List Address
  /-- Datagrams that arrived at an endpoint and were not received yet, in order. -/
  inbox : List Fabric.Flight
  loops : List Listeners.Loop
  received : List Listeners.Receipt

namespace Listeners

variable [Timer]

def start (impairment : Option Fabric.Impairment) : Listeners :=
  ⟨.start impairment, [], [], [], []⟩

/-- The endpoint last attached at an address, whether or not it still is. -/
def last? (l : Listeners) (a : Address) : Option Nat :=
  (l.addresses.mapIdx fun i b => (i, b)).reverse.findSome? fun (i, b) =>
    if b = a then some i else none

def attach (l : Listeners) (a : Address) : Listeners :=
  { l with fabric := (l.fabric.attach a).1, addresses := l.addresses ++ [a] }

def detach (l : Listeners) (a : Address) : Listeners := { l with fabric := l.fabric.detach a }

def listen (l : Listeners) (a : Address) : Listeners :=
  match l.last? a with
  | none => l
  | some endpoint => { l with loops := l.loops ++ [⟨endpoint, false, .running ()⟩] }

/-- Cancels the loops that run on the endpoint last attached at an address. -/
def cancel (l : Listeners) (a : Address) : Listeners :=
  match l.last? a with
  | none => l
  | some endpoint =>
    { l with loops := l.loops.map fun loop =>
        match loop.stage with
        | .running () => if loop.endpoint = endpoint then { loop with cancelled := true } else loop
        | _ => loop }

def send (l : Listeners) (now : Instant) (source target : Address) (bytes : Bytes) : Listeners :=
  match l.last? source with
  | none => l
  | some _ => { l with fabric := l.fabric.send now source target bytes }

def receiptOf? (l : Listeners) (now : Instant) (x : Fabric.Flight) : Option Receipt :=
  (l.addresses[x.endpoint]?).map fun a => ⟨now, a, x.source, x.bytes⟩

/-- The loops in turn, each with the datagrams that are left for it. Also answers the datagrams
that no loop received. -/
def serve (l : Listeners) (now : Instant) : List Loop → List Fabric.Flight →
    List Loop × List Receipt × List Fabric.Flight
  | [], inbox => ([], [], inbox)
  | loop :: rest, inbox =>
    match loop.stage with
    | .running () =>
      if loop.cancelled then
        let (loops, received, inbox) := serve l now rest inbox
        ({ loop with stage := .over .ended } :: loops, received, inbox)
      else
        let mine := inbox.filter (·.endpoint = loop.endpoint)
        let others := inbox.filter (·.endpoint ≠ loop.endpoint)
        let (loops, received, inbox) := serve l now rest others
        let stage :=
          if l.fabric.isOpen loop.endpoint then Stage.running () else .over .ended
        ({ loop with stage } :: loops, mine.filterMap (l.receiptOf? now) ++ received, inbox)
    | _ =>
      let (loops, received, inbox) := serve l now rest inbox
      (loop :: loops, received, inbox)

def settle (now : Instant) (l : Listeners) : Listeners :=
  let (fabric, arrived) := l.fabric.arrivals now
  let l := { l with fabric, inbox := l.inbox ++ arrived }
  let (loops, received, inbox) := l.serve now l.loops l.inbox
  { l with loops, received := l.received ++ received, inbox }

def due? (l : Listeners) : Option Instant := l.fabric.due?

def collected (l : Listeners) : Listeners := { l with received := [] }

end Listeners

end Concord
