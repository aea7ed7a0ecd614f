import Concord.Net.Address
import Concord.Record.Word
import Concord.Time.Span

/-!
What all running parts of a member share: how far they are, what reaches them from outside and
what they hand to the network.
-/

namespace Concord

/-- How a part came to its end. -/
inductive Outcome where
  | ended
  | failed (reason : String)
  | broken
deriving DecidableEq

def Outcome.text : Outcome → String
  | .ended => "ok"
  | .failed reason => "error: " ++ reason
  | .broken => "panic"

/-- A part has a state of its own only while it runs. -/
inductive Stage (σ : Type) where
  | notStarted
  | running (state : σ)
  | over (outcome : Outcome)

namespace Stage

variable {σ : Type}

def text : Stage σ → String
  | .notStarted => "stopped"
  | .running _ => "running"
  | .over outcome => outcome.text

def state? : Stage σ → Option σ
  | .running s => some s
  | _ => none

end Stage

/-- A datagram handed to the network, whether or not it can be delivered. -/
structure Sent where
  time : Instant
  target : Address
  bytes : Bytes
deriving DecidableEq

/-- What a receiving loop finds: a datagram, or a reason to end. -/
inductive Arrival where
  | datagram (source : Address) (bytes : Bytes)
  | cancel
  | failure (reason : String)

def Sent.all (time : Instant) (round : List (Address × Bytes)) : List Sent :=
  round.map fun (target, bytes) => ⟨time, target, bytes⟩

/-- The earlier of two instants, either of which may be missing. -/
def earlier? : Option Instant → Option Instant → Option Instant
  | some a, some b => some (min a b)
  | some a, none => some a
  | none, b => b

end Concord
