import Concord.Run.Stage

/-!
A recorder stands in for the network: it keeps what is sent, for expectations about it. It never
receives; its receiving loop only waits to be cancelled.
-/

namespace Concord

structure Recorder where
  address : Address
  /-- Datagrams sent and not yet taken, in order. -/
  sent : List (Address × Bytes)
  loop : Stage Unit

namespace Recorder

def start (address : Address) : Recorder := ⟨address, [], .running ()⟩

def send (r : Recorder) (target : Address) (bytes : Bytes) : Recorder :=
  { r with sent := r.sent ++ [(target, bytes)] }

def take (r : Recorder) : Recorder × List (Address × Bytes) := ({ r with sent := [] }, r.sent)

/-- Expects the first datagram to hold a value and to go to an address. It is used up even if it is
not as expected. -/
def expect {α : Type} [DecidableEq α] (decode? : Bytes → Option α) (r : Recorder) (target : Address)
    (expected : α) : Recorder × Bool :=
  match r.sent with
  | [] => (r, false)
  | (actual, bytes) :: rest =>
    ({ r with sent := rest }, decide (decode? bytes = some expected) && decide (actual = target))

def expectNothing (r : Recorder) : Bool := r.sent.isEmpty

def cancel (r : Recorder) : Recorder := { r with loop := .over .ended }

end Recorder

end Concord
