import Concord.Member
import Concord.Net.Address

/-!
The group is fixed for a run: a list of members with their hosts and addresses, and which of them
this process is. The rank of a member is its place in the list, counted from one.
-/

namespace Concord

structure Member where
  id : MemberId
  host : String
  address : Address

structure Group where
  self : MemberId
  members : List Member

inductive GroupError where
  | rankOutOfRange (rank size : Nat)
  | tooManyHosts
  | unknownHost (host : String)
  | unresolved (host reason : String)

def GroupError.message : GroupError → String
  | .rankOutOfRange rank size =>
    "rank " ++ toString rank ++ " is out of range for " ++ toString size ++ " addresses"
  | .tooManyHosts => "too many hosts"
  | .unknownHost host => "cannot find process identifier for " ++ host ++ " in hostfile"
  | .unresolved host reason => "cannot resolve " ++ host ++ ": " ++ reason

namespace Group

/-- The member in a place of the list, counted from zero. -/
def idAt (place : Nat) : MemberId := ⟨(place + 1).toUInt32⟩

/-- As many members as there are ranks. -/
def maxSize : Nat := 0xFFFFFFFF

/-- A group of known addresses, each host named by its address. -/
def ofAddresses (addresses : List Address) (place : Nat) : Except GroupError Group :=
  if addresses.length ≤ place then .error (.rankOutOfRange place addresses.length)
  else if maxSize < addresses.length then .error .tooManyHosts
  else
    .ok {
      self := idAt place
      members := addresses.mapIdx fun i a => ⟨idAt i, a.text, a⟩ }

/-- Looks every host up, in order; the first that cannot be found is the error. One host more than
there are ranks is still looked up. -/
def resolve (lookup : String → Except String Host) (hosts : List String) (own : String)
    (port : UInt16) : Except GroupError Group :=
  match hosts.findIdx? (· = own) with
  | none => .error (.unknownHost own)
  | some place => do
    let found ← (hosts.take (maxSize + 1)).mapM fun h =>
      match lookup h with
      | .ok host => .ok (h, host)
      | .error reason => .error (GroupError.unresolved h reason)
    if maxSize < found.length then throw .tooManyHosts
    return {
      self := idAt place
      members := found.mapIdx fun i (h, host) => ⟨idAt i, h, ⟨host, port⟩⟩ }

/-- Members at ports `1` to `size` of this machine. -/
def onLoopback (size : Nat) : List Member :=
  (List.range size).map fun i =>
    let address := Address.loopback (i + 1).toUInt16
    ⟨idAt i, address.text, address⟩

/-- The group of every member on this machine, in the order of ranks. -/
def seats (size : Nat) : List Group :=
  (List.range size).map fun i => ⟨idAt i, onLoopback size⟩

def size (g : Group) : Nat := g.members.length

def isEmpty (g : Group) : Bool := g.members.isEmpty

def ids (g : Group) : List MemberId := g.members.map Member.id

/-- Everyone but this process, in the order of the list. -/
def others (g : Group) : List MemberId := g.ids.filter (· ≠ g.self)

def member? (g : Group) (id : MemberId) : Option Member := g.members.find? (·.id = id)

def contains (g : Group) (id : MemberId) : Bool := g.members.any (·.id = id)

def addressOf (g : Group) (id : MemberId) : Option Address := (g.member? id).map Member.address

/-- Every member has an address. -/
theorem exists_addressOf {g : Group} {id : MemberId} (h : id ∈ g.ids) :
    ∃ a, g.addressOf id = some a := by
  obtain ⟨m, listed, same⟩ := List.mem_map.mp h
  obtain ⟨k, found⟩ : ∃ k, g.members.find? (·.id = id) = some k :=
    Option.isSome_iff_exists.mp (List.find?_isSome.mpr ⟨m, listed, decide_eq_true same⟩)
  exact ⟨k.address, Option.map_eq_some_iff.mpr ⟨k, found, rfl⟩⟩

/-- The first member with an address. -/
def memberAt (g : Group) (a : Address) : Option MemberId :=
  (g.members.find? (·.address = a)).map Member.id

/-- The same group, addressed on another port. -/
def withPort (g : Group) (port : UInt16) : Group :=
  { g with members := g.members.map fun m => { m with address := m.address.withPort port } }

end Group

end Concord
