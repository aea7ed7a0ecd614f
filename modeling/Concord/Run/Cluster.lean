import Concord.Run.LiveNode

/-!
Members whose datagrams wait in one list until they are handed over, copied or dropped. Member `n`
is at port `n` of this machine.
-/

namespace Concord

/-- A datagram that waits, with the ranks of its sender and its destination. -/
structure Cluster.Waiting where
  time : Instant
  source : Nat
  destination : Nat
  bytes : Bytes

structure Cluster where
  nodes : List LiveNode
  waiting : List Cluster.Waiting
  /-- Everything each member has delivered, in order. -/
  logs : List (List Message)

/-- What one step moved and caused. -/
structure Cluster.Report where
  moved : List Cluster.Waiting
  sent : List Cluster.Waiting
  /-- Each delivery with the rank of the member. -/
  delivered : List (Nat × Message)
  error : Option Exhausted

namespace Cluster

variable [Timer]

def settleNodes (now : Instant) (nodes : List LiveNode) : List LiveNode :=
  nodes.map (LiveNode.settle now)

def start (settings : Settings) (size : Nat) (draws : Draws) : Except NodeError Cluster := do
  let nodes ← LiveNode.startAll settings size draws
  return ⟨settleNodes 0 nodes, [], nodes.map fun _ => []⟩

/-- Bytes are compared from the front, and a text comes before its continuations. -/
def bytesBefore : Bytes → Bytes → Bool
  | _, [] => false
  | [], _ :: _ => true
  | a :: as, b :: bs => a < b || (a == b && bytesBefore as bs)

def Waiting.precedes (a b : Waiting) : Bool :=
  a.time < b.time || (a.time == b.time &&
    (a.source < b.source || (a.source == b.source &&
      (a.destination < b.destination || (a.destination == b.destination &&
        bytesBefore a.bytes b.bytes)))))

def rankOf (a : Address) : Nat := a.port.toNat

def sentBy (rank : Nat) (l : LiveNode) : List Waiting :=
  l.sent.map fun s => ⟨s.time, rank, rankOf s.target, s.bytes⟩

/-- Collects what the members sent and delivered; what was sent waits, in order of time, members
and bytes. -/
def collect (c : Cluster) (moved : List Waiting) (error : Option Exhausted) : Cluster × Report :=
  let sent := ((c.nodes.mapIdx fun i l => sentBy (i + 1) l).flatten).mergeSort
    fun a b => !b.precedes a
  let delivered := (c.nodes.mapIdx fun i l => l.delivered.map fun m => (i + 1, m)).flatten
  ({ nodes := c.nodes.map LiveNode.collected
     waiting := c.waiting ++ sent
     logs := c.logs.zipWith (fun log l => log ++ l.delivered) c.nodes },
    ⟨moved, sent, delivered, error⟩)

/-- Changes one member, given by its rank. -/
def modify (c : Cluster) (rank : Nat) (f : LiveNode → LiveNode) : Cluster :=
  { c with nodes := c.nodes.modify (rank - 1) f }

def multicast (c : Cluster) (now : Instant) (rank : Nat) (payload : UInt32) : Cluster × Report :=
  let error := (c.nodes[rank - 1]?).bind fun l => (l.multicast payload).2
  (c.modify rank fun l => (l.multicast payload).1.settle now).collect [] error

def remove (c : Cluster) (now : Instant) (rank : Nat) (target : MemberId) : Cluster × Report :=
  (c.modify rank fun l => (l.remove target).settle now).collect [] none

/-- Hands a datagram to its destination. -/
def handOver (c : Cluster) (now : Instant) (w : Waiting) : Cluster :=
  c.modify w.destination fun l =>
    (l.arrive (.datagram (.loopback w.source.toUInt16) w.bytes)).settle now

/-- The waiting datagram that an index picks, counted around the list. -/
def pick? (c : Cluster) (index : Nat) : Option (Nat × Waiting) :=
  let i := index % c.waiting.length
  (c.waiting[i]?).map fun w => (i, w)

def deliver (c : Cluster) (now : Instant) (index : Nat) : Cluster × Report :=
  match c.pick? index with
  | none => c.collect [] none
  | some (i, w) => ({ c with waiting := c.waiting.eraseIdx i }.handOver now w).collect [w] none

def duplicate (c : Cluster) (now : Instant) (index : Nat) : Cluster × Report :=
  match c.pick? index with
  | none => c.collect [] none
  | some (_, w) => (c.handOver now w).collect [w] none

def drop (c : Cluster) (index : Nat) : Cluster × Report :=
  match c.pick? index with
  | none => c.collect [] none
  | some (i, w) => { c with waiting := c.waiting.eraseIdx i }.collect [w] none

/-- Delivers the first waiting datagram until none waits, at most so many times. -/
def flush (c : Cluster) (now : Instant) : Nat → Cluster × Report
  | 0 => (c, ⟨[], [], [], none⟩)
  | n + 1 =>
    if c.waiting.isEmpty then (c, ⟨[], [], [], none⟩)
    else
      let (c, first) := c.deliver now 0
      let (c, rest) := c.flush now n
      (c, ⟨first.moved ++ rest.moved, first.sent ++ rest.sent,
        first.delivered ++ rest.delivered, none⟩)

def settle (now : Instant) (c : Cluster) : Cluster := { c with nodes := settleNodes now c.nodes }

def due? (c : Cluster) : Option Instant := c.nodes.foldl (fun t l => earlier? t l.due?) none

end Cluster

end Concord
