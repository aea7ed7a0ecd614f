import Concord.Data.Roll
import Concord.Net.Address
import Concord.Record.Codec

/-!
Records that are sent again until every recipient has acknowledged them, in the order in which
they were put.
-/

namespace Concord

/-- What an outbox holds: it is about a message and has a form on the wire. -/
class Mail (α : Type) where
  about : α → MessageId
  encode : α → Bytes

instance : Mail Message := ⟨Message.id, Message.encode⟩

instance : Mail Decision := ⟨Decision.id, Decision.encode⟩

/-- Recipients that have not acknowledged an item yet. -/
structure Parcel (α : Type) where
  item : α
  waiting : Roll MemberId

/-- `calls` counts the items put into an empty outbox whose call to the sending loop is still to
be made. -/
structure Outbox (α : Type) where
  parcels : List (Parcel α)
  calls : Nat

namespace Outbox

variable {α : Type}

def empty : Outbox α := ⟨[], 0⟩

instance : Inhabited (Outbox α) := ⟨empty⟩

def isEmpty (o : Outbox α) : Bool := o.parcels.isEmpty

/-- Appends an item for its recipients. Without any there is nothing to send. -/
def put (o : Outbox α) (item : α) (recipients : List MemberId) : Outbox α :=
  let waiting := Roll.ofList recipients
  if waiting.isEmpty then o
  else ⟨o.parcels ++ [⟨item, waiting⟩], if o.isEmpty then o.calls + 1 else o.calls⟩

/-- Stops waiting for a member everywhere. Also answers how many parcels waited for it. -/
def forget (o : Outbox α) (member : MemberId) : Outbox α × Nat :=
  let trimmed := o.parcels.map fun p => { p with waiting := p.waiting.erase member }
  ({ o with parcels := trimmed.filter fun p => !p.waiting.isEmpty },
    o.parcels.countP fun p => decide (member ∈ p.waiting))

variable [Mail α]

/-- Strikes a recipient off the first parcel about a message. -/
def strike (id : MessageId) (recipient : MemberId) : List (Parcel α) → List (Parcel α) × Bool
  | [] => ([], false)
  | p :: rest =>
    if Mail.about p.item = id then
      let waiting := p.waiting.erase recipient
      (if waiting.isEmpty then rest else { p with waiting } :: rest,
        decide (recipient ∈ p.waiting))
    else
      let (rest, struck) := strike id recipient rest
      (p :: rest, struck)

/-- Takes an acknowledgement. Also answers whether it was still awaited. -/
def acknowledge (o : Outbox α) (id : MessageId) (recipient : MemberId) : Outbox α × Bool :=
  let (parcels, struck) := strike id recipient o.parcels
  ({ o with parcels }, struck)

/-- The messages with recipients that have not acknowledged, in the order of putting. -/
def inFlight (o : Outbox α) : List MessageId := o.parcels.map fun p => Mail.about p.item

def remaining? (o : Outbox α) (id : MessageId) : Option (List MemberId) :=
  (o.parcels.find? fun p => Mail.about p.item = id).map fun p => p.waiting.toList

/-- One datagram for every parcel and awaited recipient. A recipient without an address gets none. -/
def round (addressOf : MemberId → Option Address) (o : Outbox α) : List (Address × Bytes) :=
  o.parcels.flatMap fun p =>
    (p.waiting.toList.filterMap addressOf).map fun a => (a, Mail.encode p.item)

end Outbox

end Concord
