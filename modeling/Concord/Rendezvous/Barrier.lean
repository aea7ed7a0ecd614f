import Concord.Rendezvous.Probe
import Concord.Run.Stage
import Concord.Run.Ticker

/-!
The barrier that a member passes before it takes part. Until then it probes at every interval those
that have not answered. Its responder answers the probes of others before and after, so that
members which start later can pass as well.
-/

namespace Concord

inductive Barrier.Gate where
  | waiting (ticker : Ticker)
  | passed
  | failed
  | broken

structure Barrier where
  group : Group
  gate : Barrier.Gate
  probe : Probe
  responder : Stage Unit
  sent : List Sent

namespace Barrier

def Gate.text : Gate → String
  | .waiting _ => "waiting"
  | .passed => "ready"
  | .failed => "error: probe responder terminated before all peers were ready"
  | .broken => "panic"

/-- The gate opens as soon as the probe is complete, and cannot open any more once the responder
has ended. -/
def reconsider (b : Barrier) : Barrier :=
  match b.gate with
  | .waiting _ =>
    if b.probe.complete b.group.others then { b with gate := .passed }
    else
      match b.responder with
      | .over _ => { b with gate := .failed }
      | _ => b
  | _ => b

variable [Timer]

/-- The responder starts first; without a period the gate is broken, and the responder goes on. -/
def start (group : Group) (interval : Span) (now : Instant) : Barrier :=
  let gate :=
    match Ticker.start? now interval with
    | some ticker => Gate.waiting ticker
    | none => .broken
  reconsider ⟨group, gate, .none, .running (), []⟩

def settle (now : Instant) (b : Barrier) : Barrier :=
  match b.gate with
  | .waiting ticker =>
    let times := ticker.due now
    let rounds := (List.replicate times (b.probe.round b.group)).flatten
    { b with gate := .waiting (ticker.skip times), sent := b.sent ++ Sent.all now rounds }
  | _ => b

def due? (b : Barrier) : Option Instant :=
  match b.gate with
  | .waiting ticker => some ticker.next
  | _ => none

def arrive (now : Instant) (b : Barrier) (a : Arrival) : Barrier :=
  match b.responder with
  | .running () =>
    match a with
    | .datagram source bytes =>
      match Signal.decode bytes with
      | .ok s =>
        let (probe, answer) := b.probe.hear b.group source s
        reconsider { b with probe, sent := b.sent ++ Sent.all now answer.toList }
      | .error _ => b
    | .cancel => reconsider { b with responder := .over .ended }
    | .failure reason => reconsider { b with responder := .over (.failed reason) }
  | _ => b

/-- How the responder is, once the gate is passed. -/
def responderText (b : Barrier) : String :=
  match b.gate with
  | .passed => b.responder.text
  | _ => "-"

def collected (b : Barrier) : Barrier := { b with sent := [] }

end Barrier

end Concord
