import Concord.Order.Ballot
import Concord.Order.HoldBack
import Concord.Order.SeenIds

/-!
One member's part in the agreement on a total order, without input and output. Every live member
proposes a number for a message, its sender among them, and the greatest proposal decides. A
member's proposals exceed every number it has seen, so a decision never comes before anything that
was delivered already.
-/

namespace Concord

structure Agreement where
  self : MemberId
  live : Roll MemberId
  /-- The number of messages this member has sent. -/
  created : UInt32
  /-- The greatest sequence number that this member has seen. -/
  latest : UInt32
  /-- Answers to messages that are not delivered yet, given again to every copy. -/
  answers : Table MessageId Proposal
  seen : Table MemberId SeenIds
  /-- Proposals for this member's own messages that are not decided yet. -/
  ballots : Table MessageId Ballot
  queue : HoldBack

/-- A decision just taken on an own message, and what it allowed this member to deliver. -/
structure Settlement where
  decision : Decision
  delivered : List Message

inductive Exhausted where
  | messageNumbers
  | sequenceNumbers
deriving DecidableEq

def Exhausted.message : Exhausted → String
  | .messageNumbers => "message ids are exhausted"
  | .sequenceNumbers => "sequence numbers are exhausted"

namespace Agreement

def start (self : MemberId) (members : List MemberId) : Agreement where
  self := self
  live := (Roll.ofList members).insert self
  created := 0
  latest := 0
  answers := .empty
  seen := .empty
  ballots := .empty
  queue := .empty

def after? (n : UInt32) : Option UInt32 := if n = 0xFFFFFFFF then none else some (n + 1)

/-- Everyone this member sends to. -/
def others (a : Agreement) : List MemberId := a.live.toList.filter (· ≠ a.self)

def hasDelivered (a : Agreement) (id : MessageId) : Bool :=
  match a.seen.get? id.sender with
  | some ids => ids.contains id.number
  | none => false

def recordDelivery (a : Agreement) (m : Message) : Agreement :=
  { a with
    answers := a.answers.erase m.id
    seen := a.seen.put m.id.sender (((a.seen.get? m.id.sender).getD .none).insert m.id.number) }

/-- Takes note of a final stamp and delivers what it unblocks. A message that is not waiting here
unblocks nothing. -/
def adopt (a : Agreement) (d : Decision) : Agreement × List Message :=
  let a := { a with latest := max a.latest d.stamp.number }
  match a.queue.settle d.id d.stamp with
  | (queue, true) =>
    let (queue, delivered) := queue.release
    (delivered.foldl recordDelivery { a with queue }, delivered)
  | (_, false) => (a, [])

/-- Whether every live member has proposed. -/
def complete (a : Agreement) (b : Ballot) : Bool := a.live.toList.all b.contains

/-- Decides on an own message as soon as its ballot is complete. -/
def decide? (a : Agreement) (id : MessageId) : Agreement × Option Settlement :=
  match a.ballots.get? id with
  | none => (a, none)
  | some ballot =>
    if a.complete ballot then
      match ballot.winner? with
      | none => (a, none)
      | some stamp =>
        let decision : Decision := ⟨id, stamp⟩
        let (a, delivered) := { a with ballots := a.ballots.erase id }.adopt decision
        (a, some ⟨decision, delivered⟩)
    else (a, none)

/-- Tries to create the next message with this member's own proposal for it. The decision comes at
once only if no other member is live. Both counters are looked at before anything is changed. -/
def tryCreate (a : Agreement) (payload : UInt32) :
    Agreement × Except Exhausted (Message × Option Settlement) :=
  match after? a.created, after? a.latest with
  | none, _ => (a, .error .messageNumbers)
  | _, none => (a, .error .sequenceNumbers)
  | some created, some latest =>
    let a := { a with created, latest }
    let message : Message := ⟨⟨a.self, created⟩, payload⟩
    let a := { a with
      queue := (a.queue.add message ⟨latest, a.self⟩).1
      ballots := a.ballots.put message.id (Table.empty.put a.self latest) }
    let (a, settlement) := a.decide? message.id
    (a, .ok (message, settlement))

/-- The same for a caller that goes on only with a new message. -/
def create (a : Agreement) (payload : UInt32) :
    Except Exhausted (Agreement × Message × Option Settlement) :=
  match a.tryCreate payload with
  | (_, .error e) => .error e
  | (a, .ok (message, settlement)) => .ok (a, message, settlement)

/-- The answer to another member's message, or none if it must not be answered: a message of this
member, one that was delivered, or a new one after the last sequence number. -/
def propose (a : Agreement) (m : Message) : Agreement × Option Proposal :=
  if m.id.sender = a.self then (a, none)
  else
    match a.answers.get? m.id with
    | some answer => (a, some answer)
    | none =>
      if a.hasDelivered m.id then (a, none)
      else
        match after? a.latest with
        | none => (a, none)
        | some latest =>
          let stamp : Stamp := ⟨latest, a.self⟩
          let answer : Proposal := ⟨m.id, stamp⟩
          ({ a with
              latest
              queue := (a.queue.add m stamp).1
              answers := a.answers.put m.id answer },
            some answer)

/-- Counts a proposal for an own message that is still open. -/
def count (a : Agreement) (p : Proposal) : Agreement × Option Settlement :=
  match a.ballots.get? p.id with
  | none => (a, none)
  | some ballot =>
    let ballot := ballot.put p.stamp.proposer p.stamp.number
    { a with ballots := a.ballots.put p.id ballot }.decide? p.id

/-- Follows another member's decision. It is confirmed even if the message is not waiting here:
its sender repeats it until everyone has confirmed. -/
def follow (a : Agreement) (d : Decision) : Agreement × Receipt × List Message :=
  let (a, delivered) := a.adopt d
  (a, ⟨d.id, a.self⟩, delivered)

def decideAll (a : Agreement) : List MessageId → Agreement × List Settlement
  | [] => (a, [])
  | id :: rest =>
    let (a, settlement) := a.decide? id
    let (a, settlements) := a.decideAll rest
    (a, settlement.toList ++ settlements)

/-- Stops waiting for a member, which completes the ballots that lacked only its proposal. They are
tried in the order of their ids, in which they stand already. -/
def remove (a : Agreement) (member : MemberId) : Agreement × List Settlement :=
  if member = a.self ∨ member ∉ a.live then (a, [])
  else { a with live := a.live.erase member }.decideAll a.ballots.keys

def text (a : Agreement) : String :=
  "myself: " ++ a.self.label
    ++ ", live peers: \x7b" ++ ", ".intercalate (a.live.toList.map MemberId.label)
    ++ "\x7d, msg counter: " ++ toString a.created.toNat
    ++ ", latest seq: " ++ toString a.latest.toNat
    ++ ", collecting proposals: " ++ toString a.ballots.size
    ++ ", cached acks: " ++ toString a.answers.size
    ++ ", hold-back queue: [" ++ ", ".intercalate (a.queue.entries.map HoldBack.Entry.text) ++ "]"

end Agreement

end Concord
