import Concord.Group.Basic
import Concord.Retry.Outbox
import Concord.Retry.Pump
import Concord.Run.Stage

/-!
An outbox with its sending loops. Each start adds one; every loop sends the whole outbox.
-/

namespace Concord

structure Sender (α : Type) where
  group : Group
  basePause : Span
  longestPause : Span
  outbox : Outbox α
  loops : Stage (List Pump)
  sent : List Sent

namespace Sender

variable {α : Type} [Mail α] [Timer]

def start (group : Group) (basePause longestPause : Span) : Sender α :=
  ⟨group, basePause, longestPause, .empty, .notStarted, []⟩

/-- Makes the outstanding calls and lets every loop do all it can at one instant. -/
def settle (now : Instant) (s : Sender α) : Sender α :=
  match s.loops with
  | .running pumps =>
    let round := s.outbox.round s.group.addressOf
    let settled := (Pump.callOneTimes pumps s.outbox.calls).map (Pump.settle now round)
    { s with
      outbox := { s.outbox with calls := 0 }
      loops := .running (settled.map Prod.fst)
      sent := s.sent ++ Sent.all now (settled.flatMap Prod.snd) }
  | _ => s

/-- Starts a loop. A call that was made before the first is kept for it. -/
def begin (s : Sender α) : Sender α :=
  match Pump.start s.basePause s.longestPause, s.loops with
  | .ok pump, .running pumps => { s with loops := .running (pumps ++ [pump]) }
  | .ok pump, _ => { s with loops := .running [pump] }
  | .error _, _ => { s with loops := .over .broken }

def due? (s : Sender α) : Option Instant :=
  (s.loops.state?.getD []).foldl (fun due pump => earlier? due pump.due?) none

end Sender

end Concord
