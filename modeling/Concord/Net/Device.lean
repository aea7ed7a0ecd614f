import Concord.Net.Address
import Concord.Record.Word

/-!
Datagram sockets on the loopback device of a machine. A port is bound once. While the device is
down sockets can be bound, but nothing can be sent. A receiver takes the first bytes of a datagram
up to a limit and loses the others.
-/

namespace Concord

inductive DeviceError where
  | addressInUse
  | unreachable
deriving DecidableEq

def DeviceError.message : DeviceError → String
  | .addressInUse => "Address already in use (os error 98)"
  | .unreachable => "Network is unreachable (os error 101)"

/-- A bound socket with the datagrams that arrived and were not received yet. -/
structure Device.Socket where
  address : Address
  inbox : List (Address × Bytes)

structure Device where
  isUp : Bool
  sockets : List Device.Socket

namespace Device

def start (isUp : Bool) : Device := ⟨isUp, []⟩

/-- The longest datagram that is received whole. -/
def receiveLimit : Nat := 1024

def bind (d : Device) (port : UInt16) : Except DeviceError (Device × Address) :=
  let address := Address.loopback port
  if d.sockets.any (·.address = address) then .error .addressInUse
  else .ok ({ d with sockets := ⟨address, []⟩ :: d.sockets }, address)

/-- Sends a datagram. It is lost if nothing is bound to its destination. -/
def send (d : Device) (source target : Address) (bytes : Bytes) : Except DeviceError Device :=
  if d.isUp then
    .ok { d with sockets := d.sockets.map fun s =>
      if s.address = target then { s with inbox := s.inbox ++ [(source, bytes)] } else s }
  else .error .unreachable

/-- Receives everything that has arrived at an address. -/
def receive (d : Device) (a : Address) : Device × List (Address × Bytes) :=
  ({ d with sockets := d.sockets.map fun s => if s.address = a then { s with inbox := [] } else s },
    (d.sockets.filter (·.address = a)).flatMap fun s =>
      s.inbox.map fun (source, bytes) => (source, bytes.take receiveLimit))

/-- What came of sending datagrams from one socket to another. -/
structure Exchange where
  /-- Each datagram received, with whether it came from the sending socket. -/
  received : List (Bool × Bytes)
  /-- Whether the port of the sending socket could not be bound again. -/
  refused : Bool

def sendAll (d : Device) (source target : Address) : List Bytes → Except DeviceError Device
  | [] => .ok d
  | bytes :: rest => do (← d.send source target bytes).sendAll source target rest

/-- Binds a socket to each of two ports and sends datagrams from the first to the second. -/
def exchange (d : Device) (first second : UInt16) (datagrams : List Bytes) :
    Except DeviceError Exchange := do
  let (d, source) ← d.bind first
  let (d, target) ← d.bind second
  let d ← d.sendAll source target datagrams
  let received := (d.receive target).2.map fun (a, bytes) => (decide (a = source), bytes)
  return ⟨received, match d.bind first with | .ok _ => false | .error _ => true⟩

end Device

end Concord
