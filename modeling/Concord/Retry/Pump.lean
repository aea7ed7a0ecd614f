import Concord.Net.Address
import Concord.Record.Word
import Concord.Retry.Schedule
import Concord.Time.Timer

/-!
The loop that sends an outbox round by round. It takes a round, sends it and pauses; if the round
is empty it starts its schedule over and waits to be called. A call while it does not wait is kept
for the next time, once however often it is made.
-/

namespace Concord

inductive Pump.Phase where
  /-- About to take a round. -/
  | ready
  /-- Has a round to send. -/
  | sending (round : List (Address × Bytes))
  /-- Took an empty round and is about to wait. -/
  | idle
  | waiting
  | pausing (due : Instant)
deriving DecidableEq

structure Pump where
  phase : Pump.Phase
  schedule : Schedule
  called : Bool

namespace Pump

def start (base ceiling : Span) : Except ScheduleError Pump :=
  (Schedule.start base ceiling).map fun schedule => ⟨.ready, schedule, false⟩

/-- Wakes the loop if it waits; else the call is kept. -/
def call (p : Pump) : Pump :=
  match p.phase with
  | .waiting => { p with phase := .ready }
  | _ => { p with called := true }

variable [Timer]

/-- One step of the loop at a time, with the round it would take. Also answers the datagrams that
the step sends. No step is possible while the loop waits or pauses. -/
def step? (now : Instant) (round : List (Address × Bytes)) (p : Pump) :
    Option (Pump × List (Address × Bytes)) :=
  match p.phase with
  | .ready =>
    if round.isEmpty then some ({ p with phase := .idle, schedule := p.schedule.reset }, [])
    else some ({ p with phase := .sending round }, [])
  | .sending taken =>
    let (pause, schedule) := p.schedule.next
    some ({ p with phase := .pausing (Instant.after now pause), schedule }, taken)
  | .idle =>
    if p.called then some ({ p with phase := .ready, called := false }, [])
    else some ({ p with phase := .waiting }, [])
  | .waiting => none
  | .pausing due => if due ≤ now then some ({ p with phase := .ready }, []) else none

/-- Takes steps while there are any. -/
def run (now : Instant) (round : List (Address × Bytes)) :
    Nat → Pump → Pump × List (Address × Bytes)
  | 0, p => (p, [])
  | steps + 1, p =>
    match p.step? now round with
    | none => (p, [])
    | some (p, sent) =>
      let (p, more) := run now round steps p
      (p, sent ++ more)

/-- Everything the loop can do at one instant. It comes to rest within six steps: a kept call is
used up once, and the pause after a round is not over at once. -/
def settle (now : Instant) (round : List (Address × Bytes)) (p : Pump) :
    Pump × List (Address × Bytes) := p.run now round 6

/-- When the loop goes on by itself. -/
def due? (p : Pump) : Option Instant :=
  match p.phase with
  | .pausing due => some due
  | _ => none

def callTimes (p : Pump) : Nat → Pump
  | 0 => p
  | n + 1 => p.call.callTimes n

/-- Wakes the first of several loops that waits, if any does. -/
def wakeOne? : List Pump → Option (List Pump)
  | [] => none
  | p :: rest =>
    if p.phase = .waiting then some (p.call :: rest) else (wakeOne? rest).map (p :: ·)

/-- Calls several loops that send the same outbox: one call wakes one of them. Waiting loops are
all alike, so any of them will do; if none waits, the first keeps the call. -/
def callOne (pumps : List Pump) : List Pump :=
  match wakeOne? pumps, pumps with
  | some woken, _ => woken
  | none, p :: rest => p.call :: rest
  | none, [] => []

def callOneTimes (pumps : List Pump) : Nat → List Pump
  | 0 => pumps
  | n + 1 => callOneTimes (callOne pumps) n

end Pump

end Concord
