import Concord.Faults
import Concord.Group.Basic
import Concord.Order.Agreement
import Concord.Retry.Outbox

/-!
A member of the group: its part in the agreement, and the outboxes with its own messages and
decisions. Messages and decisions are repeated until acknowledged; proposals and receipts are
plain replies, made anew whenever what they answer is repeated.
-/

namespace Concord

structure Node where
  group : Group
  faults : Faults
  agreement : Agreement
  messages : Outbox Message
  decisions : Outbox Decision

/-- What a record caused: messages delivered, in order, and a reply to a member. -/
structure Reaction where
  delivered : List Message
  reply : Option (MemberId × Record)

inductive NodeError where
  | settings (e : SettingsError)
  | notInGroup (self : MemberId)

def NodeError.message : NodeError → String
  | .settings e => e.message
  | .notInGroup self => self.label ++ " is not part of the group"

namespace Node

def start (settings : Settings) (group : Group) : Except NodeError Node :=
  match settings.check with
  | .error e => .error (.settings e)
  | .ok () =>
    if group.contains group.self then
      .ok {
        group
        faults := .ofSettings settings
        agreement := .start group.self group.ids
        messages := .empty
        decisions := .empty }
    else .error (.notInGroup group.self)

def self (n : Node) : MemberId := n.group.self

/-- Delivers what a settlement unblocked and puts its decision out to the other live members. -/
def publish (n : Node) (s : Settlement) : Node × List Message :=
  ({ n with decisions := n.decisions.put s.decision n.agreement.others }, s.delivered)

def publishAll (n : Node) : List Settlement → Node × List Message
  | [] => (n, [])
  | s :: rest =>
    let (n, delivered) := n.publish s
    let (n, more) := n.publishAll rest
    (n, delivered ++ more)

/-- Tries to start the agreement on a new message. -/
def tryMulticast (n : Node) (payload : UInt32) : Node × Except Exhausted (List Message) :=
  let (agreement, created) := n.agreement.tryCreate payload
  let n := { n with agreement }
  match created with
  | .error e => (n, .error e)
  | .ok (message, settlement) =>
    let n := { n with messages := n.messages.put message n.agreement.others }
    let (n, delivered) := n.publishAll settlement.toList
    (n, .ok delivered)

/-- The same for a caller that goes on only with a new message. -/
def multicast (n : Node) (payload : UInt32) : Except Exhausted (Node × List Message) :=
  match n.tryMulticast payload with
  | (_, .error e) => .error e
  | (n, .ok delivered) => .ok (n, delivered)

/-- Stops waiting for a member, both for its acknowledgements and for its proposals. -/
def remove (n : Node) (member : MemberId) : Node × List Message :=
  let (agreement, settlements) := n.agreement.remove member
  let n := { n with
    agreement
    messages := (n.messages.forget member).1
    decisions := (n.decisions.forget member).1 }
  n.publishAll settlements

/-- Whether a record speaks only for the member it came from, and answers only for this one. -/
def admits (n : Node) (source : MemberId) : Record → Bool
  | .message m => m.id.sender = source
  | .proposal p => decide (p.stamp.proposer = source) && decide (p.id.sender = n.self)
  | .decision d => decide (d.id.sender = source) && n.group.contains d.stamp.proposer
  | .receipt r => decide (r.signer = source) && decide (r.id.sender = n.self)
  | .marker sender => sender = source

/-- The first half of taking a proposal: it acknowledges the message. Also answers whether it was
still awaited. -/
def acknowledgeMessage (n : Node) (p : Proposal) : Node × Bool :=
  let (messages, awaited) := n.messages.acknowledge p.id p.stamp.proposer
  ({ n with messages }, awaited)

/-- The second half of taking a proposal: it counts in the ballot. -/
def countProposal (n : Node) (p : Proposal) : Node × List Message :=
  let (agreement, settlement) := n.agreement.count p
  { n with agreement }.publishAll settlement.toList

/-- A proposal counts only the first time it arrives. -/
def takeProposal (n : Node) (p : Proposal) : Node × List Message :=
  match n.acknowledgeMessage p with
  | (n, true) => n.countProposal p
  | (n, false) => (n, [])

/-- Handles a record that was admitted and not discarded. -/
def handle (n : Node) : Record → Node × Reaction
  | .message m =>
    let (agreement, answer) := n.agreement.propose m
    ({ n with agreement }, ⟨[], answer.map fun p => (m.id.sender, .proposal p)⟩)
  | .proposal p =>
    let (n, delivered) := n.takeProposal p
    (n, ⟨delivered, none⟩)
  | .decision d =>
    let (agreement, receipt, delivered) := n.agreement.follow d
    ({ n with agreement }, ⟨delivered, some (d.id.sender, .receipt receipt)⟩)
  | .receipt r => ({ n with decisions := (n.decisions.acknowledge r.id r.signer).1 }, ⟨[], none⟩)
  | .marker _ => (n, ⟨[], none⟩)

/-- Receives a record from an address. It is ignored unless a member has the address and the
record is admitted from it, and then it may be discarded at random. -/
def receive (n : Node) (draws : Draws) (source : Address) (r : Record) : Node × Reaction × Draws :=
  match n.group.memberAt source with
  | none => (n, ⟨[], none⟩, draws)
  | some member =>
    if n.admits member r then
      match n.faults.drops draws with
      | (true, draws) => (n, ⟨[], none⟩, draws)
      | (false, draws) =>
        let (n, reaction) := n.handle r
        (n, reaction, draws)
    else (n, ⟨[], none⟩, draws)

def text (n : Node) : String :=
  let list (ids : List MessageId) : String := ", ".intercalate (ids.map MessageId.text)
  n.agreement.text ++ ", data in flight: [" ++ list n.messages.inFlight
    ++ "], seq in flight: [" ++ list n.decisions.inFlight ++ "]"

end Node

end Concord
