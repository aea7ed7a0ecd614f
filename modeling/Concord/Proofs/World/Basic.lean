import Concord.Proofs.Node.Basic
import Concord.Proofs.World.Roster
import Mathlib.Logic.Function.Basic

/-!
A cluster in all its runs. Members multicast and remove each other, their outboxes repeat what is
owed, and the network hands over anything that was ever sent, in any order and any number of times.
The history notes what happened; no member reads it.
-/

namespace Concord

structure Datagram where
  source : Address
  target : Address
  bytes : Bytes
deriving DecidableEq

/-- What is noted of a step. Every event happens at one member. -/
inductive Event where
  /-- The sender of a message multicast it. -/
  | sent (m : Message)
  /-- The proposer assigned a number to the message, or gave its answer again. -/
  | proposed (p : Proposal)
  /-- The sender of the message decided, with these members live. -/
  | decided (d : Decision) (audience : List MemberId)
  /-- A member took note of a final stamp: of its own decision or of another member's. -/
  | learned (member : MemberId) (d : Decision)
  /-- A member was told to stop waiting for another one. -/
  | removed (member other : MemberId)
deriving DecidableEq

def Event.place : Event → MemberId
  | .sent m => m.id.sender
  | .proposed p => p.stamp.proposer
  | .decided d _ => d.id.sender
  | .learned member _ => member
  | .removed member _ => member

/-- Decisions just taken, as they are noted. -/
def Agreement.verdicts (a : Agreement) (settlements : List Settlement) : List Event :=
  settlements.flatMap fun s => [.decided s.decision a.live.toList, .learned a.self s.decision]

namespace Node

def multicastEvents (n : Node) (payload : UInt32) : List Event :=
  match n.agreement.create payload with
  | .error _ => []
  | .ok (a, m, settlement) =>
    [.sent m, .proposed ⟨m.id, ⟨n.agreement.latest + 1, n.self⟩⟩] ++ a.verdicts settlement.toList

def removeEvents (n : Node) (other : MemberId) : List Event :=
  let (agreement, settlements) := n.agreement.remove other
  .removed n.self other :: agreement.verdicts settlements

def handleEvents (n : Node) : Record → List Event
  | .message m => ((n.agreement.propose m).2.map Event.proposed).toList
  | .proposal p =>
    let (agreement, settlement) := n.agreement.count p
    if (n.acknowledgeMessage p).2 then agreement.verdicts settlement.toList else []
  | .decision d => [.learned n.self d]
  | .receipt _ => []
  | .marker _ => []

/-- A record on its way to another member. -/
def letter? (n : Node) (target : MemberId) (r : Record) : Option Datagram :=
  match n.group.addressOf n.self, n.group.addressOf target with
  | some own, some other => some ⟨own, other, r.encode⟩
  | _, _ => none

def replies (n : Node) (reaction : Reaction) : List Datagram :=
  match reaction.reply with
  | none => []
  | some (target, r) => (n.letter? target r).toList

/-- What the outboxes send in their next rounds. -/
def rounds (n : Node) : List (Address × Bytes) :=
  n.messages.round n.group.addressOf ++ n.decisions.round n.group.addressOf

end Node

structure World where
  node : MemberId → Node
  /-- What each member delivered, in order. -/
  log : MemberId → List Message
  /-- Every datagram that was ever sent. -/
  sent : List Datagram
  history : List Event

namespace World

/-- One member takes a step. -/
def change (w : World) (p : MemberId) (n : Node) (delivered : List Message) (events : List Event)
    (mail : List Datagram) : World where
  node := Function.update w.node p n
  log := Function.update w.log p (w.log p ++ delivered)
  sent := w.sent ++ mail
  history := w.history ++ events

def multicast (w : World) (p : MemberId) (payload : UInt32) : World :=
  match (w.node p).multicast payload with
  | .error _ => w
  | .ok (n, delivered) => w.change p n delivered ((w.node p).multicastEvents payload) []

def remove (w : World) (p other : MemberId) : World :=
  let (n, delivered) := (w.node p).remove other
  w.change p n delivered ((w.node p).removeEvents other) []

/-- A member receives a record; its reply goes to the network. -/
def receive (w : World) (p : MemberId) (source : Address) (r : Record) (draws : Draws) : World :=
  let n := w.node p
  let (after, reaction, _) := n.receive draws source r
  let events := if n.accepts draws source r then n.handleEvents r else []
  w.change p after reaction.delivered events (n.replies reaction)

/-- A datagram reaches a member, which ignores it if it holds no record. -/
def handOver (w : World) (p : MemberId) (d : Datagram) (draws : Draws) : World :=
  match Record.decode d.bytes with
  | .error _ => w
  | .ok r => w.receive p d.source r draws

/-- A freshly started cluster. Members may have different settings. -/
structure Fresh (roster : Roster) (w : World) : Prop where
  started : ∀ p ∈ roster.ids, ∃ settings, Node.start settings (roster.group p) = .ok (w.node p)
  log_empty : ∀ p, w.log p = []
  sent_empty : w.sent = []
  history_empty : w.history = []

/-- Draws are arbitrary, so a member may discard any record it is handed. A datagram of a round that
goes out late is one that the network keeps for a while. -/
inductive Step (roster : Roster) (w : World) : World → Prop
  | multicast {p : MemberId} (member : p ∈ roster.ids) (payload : UInt32) :
      Step roster w (w.multicast p payload)
  | remove {p : MemberId} (member : p ∈ roster.ids) (other : MemberId) :
      Step roster w (w.remove p other)
  | transmit {p : MemberId} {own target : Address} {bytes : Bytes}
      (here : roster.addressOf p = some own) (due : (target, bytes) ∈ (w.node p).rounds) :
      Step roster w (w.change p (w.node p) [] [] [⟨own, target, bytes⟩])
  | handOver {p : MemberId} {d : Datagram} (posted : d ∈ w.sent)
      (here : roster.addressOf p = some d.target) (draws : Draws) :
      Step roster w (w.handOver p d draws)

inductive Reachable (roster : Roster) : World → Prop
  | start {w : World} : Fresh roster w → Reachable roster w
  | next {w v : World} : Reachable roster w → Step roster w v → Reachable roster v

/-- A member was told to remove another one. Told to remove itself, it does not. -/
def HasRemoved (w : World) (p other : MemberId) : Prop :=
  other ≠ p ∧ .removed p other ∈ w.history

instance (w : World) (p other : MemberId) : Decidable (w.HasRemoved p other) :=
  inferInstanceAs (Decidable (_ ∧ _))

end World

end Concord
