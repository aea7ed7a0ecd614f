import Concord.Record.Basic

/-!
Messages wait here until their place in the total order is certain. While a message is open its
stamp is this member's own proposal; once the decision is known the stamp is final. An entry is
released when it and everything that could still come before it are final.
-/

namespace Concord

structure HoldBack.Entry where
  message : Message
  stamp : Stamp
  final : Bool
deriving DecidableEq

/-- `waiting` repeats the ids of the entries, so that a message is looked up without them. -/
structure HoldBack where
  waiting : List MessageId
  entries : List HoldBack.Entry
deriving DecidableEq

namespace HoldBack

namespace Entry

def id (e : Entry) : MessageId := e.message.id

/-- The order of release: by number, open entries before final ones of the same number, then by
proposer. The final number of an open entry can stay equal while its proposer becomes any smaller
one, so a final entry waits behind every open entry of its number. -/
def precedes (a b : Entry) : Bool :=
  a.stamp.number < b.stamp.number ||
    (a.stamp.number == b.stamp.number &&
      ((!a.final && b.final) ||
        (a.final == b.final && a.stamp.proposer.rank < b.stamp.proposer.rank)))

def text (e : Entry) : String :=
  e.id.text ++ "@" ++ e.stamp.text ++ (if e.final then "!" else "")

end Entry

def empty : HoldBack := ⟨[], []⟩

instance : Inhabited HoldBack := ⟨empty⟩

/-- Adds an open entry at the end, unless the message is waiting already. -/
def add (q : HoldBack) (m : Message) (s : Stamp) : HoldBack × Bool :=
  if m.id ∈ q.waiting then (q, false)
  else (⟨q.waiting ++ [m.id], q.entries ++ [⟨m, s, false⟩]⟩, true)

/-- Gives the first entry of a message its final stamp. -/
def settleIn (id : MessageId) (s : Stamp) : List Entry → List Entry
  | [] => []
  | e :: rest =>
    if e.id = id then { e with stamp := s, final := true } :: rest else e :: settleIn id s rest

/-- Makes a waiting message final; anything else is left alone. -/
def settle (q : HoldBack) (id : MessageId) (s : Stamp) : HoldBack × Bool :=
  if id ∈ q.waiting then
    if q.entries.any (·.id = id) then ({ q with entries := settleIn id s q.entries }, true)
    else (q, false)
  else (q, false)

/-- Puts an entry behind all entries that precede it. -/
def arrangeIn (e : Entry) : List Entry → List Entry
  | [] => [e]
  | x :: rest => if x.precedes e then x :: arrangeIn e rest else e :: x :: rest

/-- The entries in the order of release; entries that tie keep their order. -/
def arrange : List Entry → List Entry
  | [] => []
  | e :: rest => arrangeIn e (arrange rest)

/-- Takes the final entries off the front of the arranged queue. -/
def release (q : HoldBack) : HoldBack × List Message :=
  let arranged := arrange q.entries
  let released := (arranged.takeWhile Entry.final).map Entry.message
  (⟨q.waiting.filter (· ∉ released.map Message.id), arranged.dropWhile Entry.final⟩, released)

def size (q : HoldBack) : Nat := q.entries.length

def isEmpty (q : HoldBack) : Bool := q.entries.isEmpty

end HoldBack

end Concord
