import Concord.Member

/-!
Records of the multicast protocol. A message is announced to every member, each member proposes a
sequence number for it, its sender decides on the greatest proposal, and the decision is confirmed
by every member.
-/

namespace Concord

/-- A message is known by its sender and the sender's count of messages. -/
structure MessageId where
  sender : MemberId
  number : UInt32
deriving DecidableEq, Inhabited

namespace MessageId

def text (id : MessageId) : String := id.sender.text ++ "-" ++ toString id.number.toNat

def precedes (a b : MessageId) : Bool :=
  a.sender.rank < b.sender.rank || (a.sender.rank == b.sender.rank && a.number < b.number)

end MessageId

/-- A sequence number, and the member that proposed it. -/
structure Stamp where
  number : UInt32
  proposer : MemberId
deriving DecidableEq, Inhabited

namespace Stamp

/-- Stamps are ordered by number, and equal numbers by their proposers. -/
def precedes (a b : Stamp) : Bool :=
  a.number < b.number || (a.number == b.number && a.proposer.rank < b.proposer.rank)

def text (s : Stamp) : String := toString s.number.toNat ++ "/" ++ s.proposer.text

end Stamp

structure Message where
  id : MessageId
  payload : UInt32
deriving DecidableEq, Inhabited

structure Proposal where
  id : MessageId
  stamp : Stamp
deriving DecidableEq, Inhabited

/-- The final stamp of a message. -/
structure Decision where
  id : MessageId
  stamp : Stamp
deriving DecidableEq, Inhabited

/-- Confirms that a decision arrived at a member. -/
structure Receipt where
  id : MessageId
  signer : MemberId
deriving DecidableEq, Inhabited

inductive Record where
  | message (m : Message)
  | proposal (p : Proposal)
  | decision (d : Decision)
  | receipt (r : Receipt)
  | marker (sender : MemberId)
deriving DecidableEq, Inhabited

namespace Record

inductive Kind where
  | message
  | proposal
  | decision
  | receipt
  | marker
deriving DecidableEq, Inhabited

def kind : Record → Kind
  | .message _ => .message
  | .proposal _ => .proposal
  | .decision _ => .decision
  | .receipt _ => .receipt
  | .marker _ => .marker

/-- The message that a record is about; a marker is about none. -/
def about? : Record → Option MessageId
  | .message m => some m.id
  | .proposal p => some p.id
  | .decision d => some d.id
  | .receipt r => some r.id
  | .marker _ => none

namespace Kind

def all : List Kind := [.message, .proposal, .decision, .receipt, .marker]

/-- The name of a kind on the wire. -/
def name : Kind → String
  | .message => "Data"
  | .proposal => "Ack"
  | .decision => "Seq"
  | .receipt => "SeqAck"
  | .marker => "Marker"

def code : Kind → UInt32
  | .message => 1
  | .proposal => 2
  | .decision => 3
  | .receipt => 4
  | .marker => 5

def ofCode? (n : UInt32) : Option Kind := all.find? (·.code = n)

def ofName? (s : String) : Option Kind := all.find? (·.name = s)

end Kind

end Record

end Concord
