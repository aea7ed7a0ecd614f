import Concord.Node.Basic
import Concord.Retry.Pump
import Concord.Run.Intake
import Concord.StartFault

/-!
A running member: it receives and handles records in turn, holds its replies back as the faults
say, and sends its two outboxes. It runs until its receiving loop ends; then all of its loops stop,
while its state can still be changed from outside.
-/

namespace Concord

structure LiveNode.Engine where
  intake : Intake
  /-- A reply that is held back. Nothing else is handled before it is sent. -/
  reply : Option Sent
  messagePump : Pump
  decisionPump : Pump

structure LiveNode where
  node : Node
  draws : Draws
  stage : Stage LiveNode.Engine
  /-- Messages delivered and not yet collected, in order. -/
  delivered : List Message
  /-- Datagrams sent and not yet collected, in order. -/
  sent : List Sent

namespace LiveNode

def startEngine (settings : Settings) : Except StartFault Engine :=
  match checkRoom settings.recordRoom with
  | .error e => .error e
  | .ok () =>
    match Pump.start settings.basePause settings.longestPause with
    | .error e => .error (.schedule e)
    | .ok pump => .ok ⟨.start settings.recordRoom, none, pump, pump⟩

def start (settings : Settings) (group : Group) (draws : Draws) : Except NodeError LiveNode :=
  match Node.start settings group with
  | .error e => .error e
  | .ok node =>
    let stage :=
      match startEngine settings with
      | .ok engine => .running engine
      | .error _ => .over .broken
    .ok ⟨node, draws, stage, [], []⟩

/-- One member for every seat of a group on this machine. The first that cannot start is the
error. -/
def startAll (settings : Settings) (size : Nat) (draws : Draws) : Except NodeError (List LiveNode) :=
  (Group.seats size).mapM fun group => start settings group draws

variable [Timer]

/-- Handles one queued record: what it delivers is delivered at once, its reply may be held back. -/
def handleOne (now : Instant) (l : LiveNode) (e : Engine) (source : Address) (r : Record) :
    LiveNode :=
  let (node, reaction, draws) := l.node.receive l.draws source r
  let l := { l with node, draws, delivered := l.delivered ++ reaction.delivered }
  match reaction.reply with
  | none => { l with stage := .running e }
  | some (member, reply) =>
    let (hold, draws) := l.node.faults.holds l.draws
    let l := { l with draws }
    match l.node.group.addressOf member with
    | none => { l with stage := .running e }
    | some target =>
      if hold.isZero then
        { l with stage := .running e, sent := l.sent ++ [⟨now, target, reply.encode⟩] }
      else
        let held : Sent := ⟨Instant.after now hold, target, reply.encode⟩
        { l with stage := .running { e with reply := some held } }

/-- Sends the reply that was held back if its time has come, and handles queued records until
another reply is held back. -/
def attend (now : Instant) : Nat → LiveNode → LiveNode
  | 0, l => l
  | n + 1, l =>
    match l.stage with
    | .running e =>
      match e.reply with
      | some reply =>
        if reply.time ≤ now then
          attend now n { l with
            stage := .running { e with reply := none }
            sent := l.sent ++ [{ reply with time := now }] }
        else l
      | none =>
        match e.intake.queue with
        | [] => l
        | (source, r) :: rest =>
          attend now n (l.handleOne now { e with intake := { e.intake with queue := rest } } source r)
    | _ => l

/-- Lets handling and receiving take turns until neither can go on. -/
def work (now : Instant) : Nat → LiveNode → LiveNode
  | 0, l => l
  | n + 1, l =>
    match l.stage with
    | .running e =>
      let l := l.attend now (e.intake.queue.length + 2)
      match l.stage with
      | .running e =>
        match e.intake.step?, e.intake.absorb with
        | none, _ => l
        | some _, .ok intake => work now n { l with stage := .running { e with intake } }
        | some _, .error outcome => { l with stage := .over outcome }
      | _ => l
    | _ => l

/-- Makes the outstanding calls and lets both sending loops do all they can. -/
def sendRounds (now : Instant) (l : LiveNode) : LiveNode :=
  match l.stage with
  | .running e =>
    let node := l.node
    let addressOf := node.group.addressOf
    let (messagePump, first) :=
      (e.messagePump.callTimes node.messages.calls).settle now (node.messages.round addressOf)
    let (decisionPump, second) :=
      (e.decisionPump.callTimes node.decisions.calls).settle now (node.decisions.round addressOf)
    { l with
      node := { node with
        messages := { node.messages with calls := 0 }
        decisions := { node.decisions with calls := 0 } }
      stage := .running { e with messagePump, decisionPump }
      sent := l.sent ++ Sent.all now first ++ Sent.all now second }
  | _ => l

/-- Everything the member can do at one instant. -/
def settle (now : Instant) (l : LiveNode) : LiveNode :=
  match l.stage with
  | .running e => (l.work now (e.intake.steps + e.intake.queue.length + 1)).sendRounds now
  | _ => l

def due? (l : LiveNode) : Option Instant :=
  match l.stage with
  | .running e =>
    earlier? (e.reply.map Sent.time) (earlier? e.messagePump.due? e.decisionPump.due?)
  | _ => none

def arrive (l : LiveNode) (a : Arrival) : LiveNode :=
  match l.stage with
  | .running e => { l with stage := .running { e with intake := e.intake.arrive a } }
  | _ => l

/-- Multicasts a payload, unless a counter is at its end. -/
def multicast (l : LiveNode) (payload : UInt32) : LiveNode × Option Exhausted :=
  let (node, outcome) := l.node.tryMulticast payload
  let l := { l with node }
  match outcome with
  | .ok delivered => ({ l with delivered := l.delivered ++ delivered }, none)
  | .error e => (l, some e)

def remove (l : LiveNode) (member : MemberId) : LiveNode :=
  let (node, delivered) := l.node.remove member
  { l with node, delivered := l.delivered ++ delivered }

/-- Stops all loops at once, as when the process dies. -/
def crash (l : LiveNode) : LiveNode := { l with stage := .over .ended }

def collected (l : LiveNode) : LiveNode := { l with delivered := [], sent := [] }

end LiveNode

end Concord
