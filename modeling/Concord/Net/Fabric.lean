import Concord.Net.Address
import Concord.Record.Word
import Concord.Time.Timer

/-!
A network in memory. Every attachment to an address is a new endpoint; datagrams go to the endpoint
that is attached when they are sent and are lost if there is none. On an impaired network each
datagram, or two copies of it, arrives after a latency.
-/

namespace Concord

structure Fabric.Impairment where
  latency : Span
  duplicates : Bool

/-- A copy of a datagram under way to an endpoint. -/
structure Fabric.Flight where
  due : Instant
  endpoint : Nat
  source : Address
  bytes : Bytes

structure Fabric where
  impairment : Option Fabric.Impairment
  /-- The endpoint attached to each address. -/
  attached : List (Address × Nat)
  /-- The number of endpoints there have been. -/
  endpoints : Nat
  flights : List Fabric.Flight

namespace Fabric

def start (impairment : Option Impairment) : Fabric := ⟨impairment, [], 0, []⟩

def detach (f : Fabric) (a : Address) : Fabric :=
  { f with attached := f.attached.filter (·.1 ≠ a) }

/-- Attaches a new endpoint, in place of any other at the address. -/
def attach (f : Fabric) (a : Address) : Fabric × Nat :=
  ({ f with attached := (a, f.endpoints) :: (f.detach a).attached, endpoints := f.endpoints + 1 },
    f.endpoints)

def endpointAt? (f : Fabric) (a : Address) : Option Nat :=
  (f.attached.find? (·.1 = a)).map Prod.snd

variable [Timer]

def copies (f : Fabric) (now : Instant) (endpoint : Nat) (source : Address) (bytes : Bytes) :
    List Flight :=
  match f.impairment with
  | none => [⟨now, endpoint, source, bytes⟩]
  | some i =>
    List.replicate (if i.duplicates then 2 else 1)
      ⟨Instant.after now i.latency, endpoint, source, bytes⟩

def send (f : Fabric) (now : Instant) (source target : Address) (bytes : Bytes) : Fabric :=
  match f.endpointAt? target with
  | none => f
  | some endpoint => { f with flights := f.flights ++ f.copies now endpoint source bytes }

/-- Takes out the copies that have arrived, in the order in which they are due. -/
def arrivals (f : Fabric) (now : Instant) : Fabric × List Flight :=
  ({ f with flights := f.flights.filter (now < ·.due) },
    (f.flights.filter (·.due ≤ now)).mergeSort fun a b => a.due ≤ b.due)

def due? (f : Fabric) : Option Instant :=
  f.flights.foldl (fun t x => some (match t with | none => x.due | some t => min t x.due)) none

/-- An endpoint can still receive while it is attached or copies are under way to it. -/
def isOpen (f : Fabric) (endpoint : Nat) : Bool :=
  f.attached.any (·.2 = endpoint) || f.flights.any (·.endpoint = endpoint)

end Fabric

end Concord
