import Concord.Record.Codec
import Concord.Run.Stage

/-!
The way of a datagram into a member: it is found by the receiving loop, decoded, and queued for
handling. While the queue is full the loop holds one decoded record and finds nothing more.
Datagrams that are no record are dropped.
-/

namespace Concord

structure Intake where
  arrivals : List Arrival
  held : Option (Address × Record)
  queue : List (Address × Record)
  room : Nat

namespace Intake

def start (room : Nat) : Intake := ⟨[], none, [], room⟩

def arrive (i : Intake) (a : Arrival) : Intake := { i with arrivals := i.arrivals ++ [a] }

/-- What the receiving loop does next, if anything: it goes on, or it ends. -/
def step? (i : Intake) : Option (Except Outcome Intake) :=
  match i.held with
  | some r =>
    if i.queue.length < i.room then some (.ok { i with held := none, queue := i.queue ++ [r] })
    else none
  | none =>
    match i.arrivals with
    | [] => none
    | .cancel :: _ => some (.error .ended)
    | .failure reason :: _ => some (.error (.failed reason))
    | .datagram source bytes :: rest =>
      match Record.decode bytes with
      | .ok r => some (.ok { i with arrivals := rest, held := some (source, r) })
      | .error _ => some (.ok { i with arrivals := rest })

/-- How many steps the loop can take at most. -/
def steps (i : Intake) : Nat := 2 * i.arrivals.length + 1

def absorbIn : Nat → Intake → Except Outcome Intake
  | 0, i => .ok i
  | n + 1, i =>
    match i.step? with
    | none => .ok i
    | some (.ok i) => absorbIn n i
    | some (.error outcome) => .error outcome

/-- Lets the receiving loop go on until it ends, is held up or finds nothing more. -/
def absorb (i : Intake) : Except Outcome Intake := absorbIn i.steps i

end Intake

end Concord
