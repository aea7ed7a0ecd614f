import Concord.Data.Table
import Concord.Proofs.Group.Ranks
import Mathlib.Data.List.Nodup

/-!
Members looked up by id and by address. A group numbers its members in the order of the list, on
whichever ports it is addressed, so an id finds the address in its place, and an address the least of
the members that are there. The two lookups undo each other exactly where no address occurs twice,
and on a common port that is a matter of the hosts alone. Flow labels tell hosts apart as well,
though no text form shows them.
-/

namespace Concord

namespace Host

/-- The host without its flow label. -/
def unlabelled : Host → Host
  | .v4 bits => .v4 bits
  | .v6 bits _ scope => .v6 bits 0 scope

/-- A host of the newer protocol has this flow label. -/
def Labelled (flow : UInt32) : Host → Prop
  | .v4 _ => True
  | .v6 _ label _ => label = flow

theorem unlabelled_inj {flow : UInt32} {h k : Host} (one : h.Labelled flow)
    (other : k.Labelled flow) (same : h.unlabelled = k.unlabelled) : h = k := by
  cases h with
  | v4 bits =>
    cases k with
    | v4 _ => exact same
    | v6 _ _ _ => cases same
  | v6 bits label scope =>
    cases k with
    | v4 _ => cases same
    | v6 _ _ _ =>
      cases one
      cases other
      cases same
      rfl

/-- Among hosts of one flow label, it tells none apart. -/
theorem nodup_map_unlabelled_iff {flow : UInt32} {l : List Host}
    (labelled : ∀ h ∈ l, h.Labelled flow) : (l.map unlabelled).Nodup ↔ l.Nodup :=
  ⟨List.Nodup.of_map _, fun distinct =>
    distinct.map_on fun h hh k hk => unlabelled_inj (labelled h hh) (labelled k hk)⟩

end Host

namespace Address

/-- The address after its port was replaced by each of these in turn. -/
def onLast (ports : List UInt16) (a : Address) : Address :=
  match ports.getLast? with
  | none => a
  | some port => a.withPort port

theorem onLast_cons (port : UInt16) (rest : List UInt16) (a : Address) :
    a.onLast (port :: rest) = (a.withPort port).onLast rest := by
  cases rest with
  | nil => rfl
  | cons next later =>
    unfold onLast
    rw [List.getLast?_cons_cons]
    cases found : (next :: later).getLast? with
    | none => cases List.getLast?_eq_none_iff.mp found
    | some last => rfl

theorem labelled_of_read? {s : String} {a : Address} (found : read? s = some a) :
    a.host.Labelled 0 := by
  unfold read? at found
  split at found
  · simp only [Option.bind_eq_bind, Option.bind_eq_some_iff] at found
    obtain ⟨bits, -, scope, -, found⟩ := found
    split at found
    · obtain ⟨port, -, rfl⟩ := Option.map_eq_some_iff.mp found
      rfl
    · cases found
  · simp only [Option.bind_eq_bind, Option.bind_eq_some_iff] at found
    obtain ⟨bits, -, found⟩ := found
    split at found
    · obtain ⟨port, -, rfl⟩ := Option.map_eq_some_iff.mp found
      trivial
    · cases found

theorem exists_onLast {ports : List UInt16} (h : ports ≠ []) :
    ∃ port, onLast ports = (withPort · port) := by
  refine ⟨ports.getLast h, funext fun a => ?_⟩
  rw [onLast, List.getLast?_eq_some_getLast h]

/-- On one port, addresses differ where their hosts do. -/
theorem nodup_map_withPort_iff (l : List Address) (port : UInt16) :
    (l.map (·.withPort port)).Nodup ↔ (l.map host).Nodup := by
  have parted : l.map (·.withPort port) = (l.map host).map fun h => ⟨h, port⟩ := by
    rw [List.map_map]
    rfl
  rw [parted]
  exact List.nodup_map_iff fun h k same => congrArg host same

end Address

namespace Group

def addresses (g : Group) : List Address := g.members.map Member.address

/-- The group addressed on each of these ports in turn. -/
def readdress (g : Group) (ports : List UInt16) : Group := ports.foldl withPort g

/-- The members are ranked from one on in the order of the list, and this process is one of them. -/
structure Numbered (g : Group) : Prop where
  ranks : g.ids.map (·.rank.toNat) = List.range' 1 g.size
  self_mem : g.self ∈ g.ids

variable {g : Group}

theorem ids_withPort (g : Group) (port : UInt16) : (g.withPort port).ids = g.ids := List.map_map

theorem size_withPort (g : Group) (port : UInt16) : (g.withPort port).size = g.size :=
  List.length_map _

theorem addresses_withPort (g : Group) (port : UInt16) :
    (g.withPort port).addresses = g.addresses.map (·.withPort port) := by
  rw [addresses, addresses, withPort, List.map_map, List.map_map]
  rfl

theorem addresses_readdress (g : Group) (ports : List UInt16) :
    (g.readdress ports).addresses = g.addresses.map (Address.onLast ports) := by
  induction ports generalizing g with
  | nil => exact (List.map_id _).symm
  | cons port rest ih =>
    have later := ih (g.withPort port)
    rw [addresses_withPort, List.map_map] at later
    exact later.trans (List.map_congr_left fun a _ => (a.onLast_cons port rest).symm)

theorem self_readdress (g : Group) (ports : List UInt16) : (g.readdress ports).self = g.self := by
  induction ports generalizing g with
  | nil => rfl
  | cons port rest ih => exact ih (g.withPort port)

theorem of_ofAddresses {addresses : List Address} {place : Nat}
    (h : ofAddresses addresses place = .ok g) : place < addresses.length ∧
      addresses.length ≤ maxSize ∧
      g = ⟨idAt place, addresses.mapIdx fun i a => ⟨idAt i, a.text, a⟩⟩ := by
  unfold ofAddresses at h
  split at h
  · cases h
  · split at h
    · cases h
    · cases h
      exact ⟨by omega, by omega, rfl⟩

theorem numbered_ofAddresses {addresses : List Address} {place : Nat}
    (h : ofAddresses addresses place = .ok g) : g.Numbered := by
  obtain ⟨within, room, rfl⟩ := of_ofAddresses h
  constructor
  · refine List.ext_getElem (by simp [ids, size]) fun i here _ => ?_
    simp only [ids, List.length_map, List.length_mapIdx] at here
    simp only [ids, List.getElem_map, List.getElem_mapIdx, List.getElem_range']
    rw [rank_idAt (by omega)]
    omega
  · exact List.mem_map.mpr ⟨_, List.mem_mapIdx.mpr ⟨place, within, rfl⟩, rfl⟩

theorem addresses_ofAddresses {addresses : List Address} {place : Nat}
    (h : ofAddresses addresses place = .ok g) : g.addresses = addresses := by
  obtain ⟨-, -, rfl⟩ := of_ofAddresses h
  exact List.ext_getElem (by simp [Group.addresses]) fun i _ _ => by simp [Group.addresses]

/-- Of members with different ids, an id finds the address of its own. -/
theorem addressOf_eq_some_iff (distinct : g.ids.Nodup) {id : MemberId} {a : Address} :
    g.addressOf id = some a ↔ ∃ m ∈ g.members, m.id = id ∧ m.address = a := by
  rw [addressOf, Option.map_eq_some_iff]
  simp only [member?, find?_eq_some_iff_of_distinct distinct, and_assoc]

/-- Where no address occurs twice, the address of a member leads back to it. -/
theorem memberAt_of_addressOf (distinct : (g.members.map Member.address).Nodup) {id : MemberId}
    {a : Address} (h : g.addressOf id = some a) : g.memberAt a = some id := by
  obtain ⟨m, found, here⟩ := Option.map_eq_some_iff.mp h
  have about : m.id = id := by simpa using List.find?_some found
  have first : g.members.find? (·.address = a) = some m :=
    (find?_eq_some_iff_of_distinct distinct).mpr ⟨List.mem_of_find?_eq_some found, here⟩
  rw [memberAt, first, Option.map_some, about]

namespace Numbered

theorem withPort (h : g.Numbered) (port : UInt16) : (g.withPort port).Numbered := by
  constructor
  · rw [ids_withPort, size_withPort]
    exact h.ranks
  · rw [ids_withPort]
    exact h.self_mem

theorem readdress (h : g.Numbered) (ports : List UInt16) : (g.readdress ports).Numbered := by
  induction ports generalizing g with
  | nil => exact h
  | cons port rest ih => exact ih (h.withPort port)

theorem ascending (h : g.Numbered) : g.ids.Pairwise fun a b => a.rank < b.rank := by
  have order : (g.ids.map (·.rank.toNat)).Pairwise (· < ·) := by
    rw [h.ranks]
    exact List.pairwise_lt_range'
  exact (List.pairwise_map.mp order).imp UInt32.lt_iff_toNat_lt.mpr

theorem nodup_ids (h : g.Numbered) : g.ids.Nodup :=
  h.ascending.imp fun {a b} lt (same : a = b) => UInt32.lt_irrefl _ (same ▸ lt)

theorem rank_getElem (h : g.Numbered) {i : Nat} (within : i < g.members.length) :
    g.members[i].id.rank.toNat = i + 1 := by
  have here : (g.ids.map (·.rank.toNat))[i]? = (List.range' 1 g.size)[i]? := by rw [h.ranks]
  simpa [ids, size, within, Nat.add_comm] using here

/-- An id finds the address in its place of the list. -/
theorem addressOf_eq_some_iff (h : g.Numbered) {id : MemberId} {a : Address} :
    g.addressOf id = some a ↔
      ∃ i, ∃ within : i < g.addresses.length, id.rank.toNat = i + 1 ∧ a = g.addresses[i] := by
  rw [Group.addressOf_eq_some_iff h.nodup_ids]
  constructor
  · rintro ⟨m, listed, rfl, rfl⟩
    obtain ⟨i, within, rfl⟩ := List.getElem_of_mem listed
    exact ⟨i, by simpa [addresses] using within, h.rank_getElem within, by simp [addresses]⟩
  · rintro ⟨i, within, rank, rfl⟩
    rw [addresses, List.length_map] at within
    refine ⟨g.members[i], List.getElem_mem within, ?_, by simp [addresses]⟩
    exact Ranked.rank_inj ((h.rank_getElem within).trans rank.symm)

/-- The member found at an address is the least one that is there. -/
theorem of_memberAt (h : g.Numbered) {a : Address} {id : MemberId} (found : g.memberAt a = some id) :
    g.addressOf id = some a ∧ ∀ k, g.addressOf k = some a → id.rank ≤ k.rank := by
  obtain ⟨m, first, rfl⟩ := Option.map_eq_some_iff.mp found
  obtain ⟨here, before, after, split, none⟩ := List.find?_eq_some_iff_append.mp first
  have address : m.address = a := by simpa using here
  constructor
  · exact (Group.addressOf_eq_some_iff h.nodup_ids).mpr
      ⟨m, List.mem_of_find?_eq_some first, rfl, address⟩
  · intro k there
    obtain ⟨x, listed, rfl, same⟩ := (Group.addressOf_eq_some_iff h.nodup_ids).mp there
    have order := List.pairwise_map.mp h.ascending
    rw [split] at listed order
    rcases List.mem_append.mp listed with earlier | later
    · have other := none x earlier
      simp [same] at other
    · rcases List.mem_cons.mp later with rfl | later
      · exact UInt32.le_refl _
      · exact UInt32.le_of_lt
          ((List.pairwise_cons.mp (List.pairwise_append.mp order).2.1).1 x later)

theorem memberAt_eq_none_iff (h : g.Numbered) {a : Address} :
    g.memberAt a = none ↔ ∀ id, g.addressOf id ≠ some a := by
  rw [memberAt, Option.map_eq_none_iff, List.find?_eq_none]
  constructor
  · intro nobody id there
    obtain ⟨m, listed, -, same⟩ := (Group.addressOf_eq_some_iff h.nodup_ids).mp there
    exact nobody m listed (decide_eq_true same)
  · intro nobody m listed same
    exact nobody m.id ((Group.addressOf_eq_some_iff h.nodup_ids).mpr
      ⟨m, listed, rfl, of_decide_eq_true same⟩)

theorem memberAt_eq_some_iff (h : g.Numbered) {a : Address} {id : MemberId} :
    g.memberAt a = some id ↔
      g.addressOf id = some a ∧ ∀ k, g.addressOf k = some a → id.rank ≤ k.rank := by
  constructor
  · exact h.of_memberAt
  · rintro ⟨there, least⟩
    cases found : g.memberAt a with
    | none => exact absurd there (h.memberAt_eq_none_iff.mp found id)
    | some k =>
      obtain ⟨same, first⟩ := h.of_memberAt found
      have ranks := UInt32.le_antisymm (first id there) (least k same)
      exact congrArg some (Ranked.rank_inj (congrArg UInt32.toNat ranks))

/-- Every member is found at its own address exactly if no two members share one. -/
theorem forall_memberAt_iff (h : g.Numbered) :
    (∀ id ∈ g.ids, (g.addressOf id).bind g.memberAt = some id) ↔ g.addresses.Nodup := by
  constructor
  · intro inverse
    have back (m : Member) (listed : m ∈ g.members) : g.memberAt m.address = some m.id := by
      have there : g.addressOf m.id = some m.address :=
        (Group.addressOf_eq_some_iff h.nodup_ids).mpr ⟨m, listed, rfl, rfl⟩
      have found := inverse m.id (List.mem_map_of_mem listed)
      rwa [there] at found
    refine List.Nodup.map_on (fun m hm k hk same => ?_) (List.Nodup.of_map _ h.nodup_ids)
    have ids : some m.id = some k.id := by rw [← back m hm, same, back k hk]
    exact List.inj_on_of_nodup_map h.nodup_ids hm hk (Option.some.inj ids)
  · intro distinct id listed
    obtain ⟨a, there⟩ := exists_addressOf listed
    rw [there]
    exact memberAt_of_addressOf distinct there

end Numbered

/-- A group of known addresses, on whichever ports it is addressed afterwards: its ids are counted
from one in the order of the list, an id within this range finds the address in its place on the last
port, and an address finds the least id that does. Every member is found at its own address exactly
if no address occurs twice, and once a port was set, exactly if no host does. Hosts that differ
without their flow labels are different, and no others are where all flow labels agree, as those of
addresses that were read do. -/
theorem lookup_exact {addresses : List Address} {place : Nat} {g : Group}
    (accepted : ofAddresses addresses place = .ok g) (ports : List UInt16) :
    let r := g.readdress ports
    r.ids.map (·.rank.toNat) = List.range' 1 addresses.length ∧
    r.self.rank.toNat = place + 1 ∧ r.self ∈ r.ids ∧
    (∀ id, id ∈ r.others ↔ id ∈ r.ids ∧ id ≠ r.self) ∧
    r.others.Pairwise (fun a b => a.rank < b.rank) ∧
    (∀ id a, r.addressOf id = some a ↔ ∃ i, ∃ within : i < addresses.length,
      id.rank.toNat = i + 1 ∧ a = addresses[i].onLast ports) ∧
    (∀ a id, r.memberAt a = some id ↔
      r.addressOf id = some a ∧ ∀ k, r.addressOf k = some a → id.rank ≤ k.rank) ∧
    (∀ a, r.memberAt a = none ↔ ∀ id, r.addressOf id ≠ some a) ∧
    ((∀ id ∈ r.ids, (r.addressOf id).bind r.memberAt = some id) ↔
      (addresses.map (Address.onLast ports)).Nodup) ∧
    (ports ≠ [] →
      ((addresses.map (Address.onLast ports)).Nodup ↔ (addresses.map Address.host).Nodup)) ∧
    ((addresses.map (·.host.unlabelled)).Nodup → (addresses.map Address.host).Nodup) ∧
    (∀ flow, (∀ a ∈ addresses, a.host.Labelled flow) →
      ((addresses.map Address.host).Nodup ↔ (addresses.map (·.host.unlabelled)).Nodup)) ∧
    ((∀ a ∈ addresses, ∃ text, Address.read? text = some a) → ports ≠ [] →
      ((addresses.map (Address.onLast ports)).Nodup ↔
        (addresses.map (·.host.unlabelled)).Nodup)) := by
  intro r
  have numbered : r.Numbered := (numbered_ofAddresses accepted).readdress ports
  have current : r.addresses = addresses.map (Address.onLast ports) := by
    rw [addresses_readdress, addresses_ofAddresses accepted]
  have size : r.size = addresses.length := by
    rw [← List.length_map (Address.onLast ports), ← current, Group.addresses, List.length_map]
    rfl
  have own : r.self.rank.toNat = place + 1 := by
    obtain ⟨within, room, rfl⟩ := of_ofAddresses accepted
    rw [self_readdress, rank_idAt (by omega)]
  have hosts (addressed : ports ≠ []) :
      (addresses.map (Address.onLast ports)).Nodup ↔ (addresses.map Address.host).Nodup := by
    obtain ⟨port, same⟩ := Address.exists_onLast addressed
    rw [same, Address.nodup_map_withPort_iff]
  have unlabelled : addresses.map (·.host.unlabelled) =
      (addresses.map Address.host).map Host.unlabelled := by
    rw [List.map_map]
    rfl
  have alike (flow : UInt32) (labelled : ∀ a ∈ addresses, a.host.Labelled flow) :
      (addresses.map Address.host).Nodup ↔ (addresses.map (·.host.unlabelled)).Nodup := by
    rw [unlabelled, Host.nodup_map_unlabelled_iff (List.forall_mem_map.mpr labelled)]
  refine ⟨size ▸ numbered.ranks, own, numbered.self_mem, fun id => ?_, numbered.ascending.filter _,
    fun id a => ?_, fun a id => numbered.memberAt_eq_some_iff, fun a => numbered.memberAt_eq_none_iff,
    current ▸ numbered.forall_memberAt_iff, hosts, fun distinct => ?_, alike,
    fun known addressed => (hosts addressed).trans (alike 0 fun a listed => ?_)⟩
  · rw [others, List.mem_filter, decide_eq_true_eq]
  · rw [numbered.addressOf_eq_some_iff]
    simp only [current, List.length_map, List.getElem_map]
  · rw [unlabelled] at distinct
    exact List.Nodup.of_map Host.unlabelled distinct
  · obtain ⟨text, found⟩ := known a listed
    exact Address.labelled_of_read? found

/-- Two members on one host are told apart by their ports. On a common port the address of the third
member leads to the second. -/
theorem lookup_exact_of_shared_host :
    let addresses : List Address := [⟨.v6 1 0 2, 80⟩, .loopback 1001, .loopback 1002]
    ∃ g, ofAddresses addresses 2 = .ok g ∧
      (∀ id ∈ g.ids, (g.addressOf id).bind g.memberAt = some id) ∧
      let r := g.readdress [80, 9999]
      r.addressOf ⟨3⟩ = some (.loopback 9999) ∧ r.memberAt (.loopback 9999) = some ⟨2⟩ ∧
      ¬ ∀ id ∈ r.ids, (r.addressOf id).bind r.memberAt = some id := by
  intro addresses
  obtain ⟨g, accepted⟩ : ∃ g, ofAddresses addresses 2 = .ok g := ⟨_, rfl⟩
  obtain ⟨-, -, -, -, -, -, -, -, before, -⟩ := lookup_exact accepted []
  obtain ⟨-, -, -, -, -, find, find_at, -, after, hosts, -⟩ := lookup_exact accepted [80, 9999]
  refine ⟨g, accepted, before.mpr (by decide), (find _ _).mpr ⟨2, by decide, rfl, rfl⟩,
    (find_at _ _).mpr ⟨(find _ _).mpr ⟨1, by decide, rfl, rfl⟩, fun k there => ?_⟩, fun all => ?_⟩
  · obtain ⟨i, within, rank, same⟩ := (find _ _).mp there
    rw [UInt32.le_iff_toNat_le, rank]
    -- the first member is at another host
    cases i with
    | zero => cases same
    | succ i => exact Nat.le_add_left 2 i
  · exact absurd ((hosts (List.cons_ne_nil _ _)).mp (after.mp all)) (by decide)

/-- Two members on one host whose addresses have different flow labels stay apart on a common port,
although the hosts do not differ in anything else. -/
theorem flow_labels_tell_members_apart :
    let addresses : List Address := [⟨.v6 1 1 0, 1⟩, ⟨.v6 1 2 0, 2⟩]
    ∃ g, ofAddresses addresses 0 = .ok g ∧
      ¬ (addresses.map (·.host.unlabelled)).Nodup ∧
      let r := g.withPort 9999
      r.addresses.Nodup ∧ ∀ id ∈ r.ids, (r.addressOf id).bind r.memberAt = some id := by
  intro addresses
  obtain ⟨g, accepted⟩ : ∃ g, ofAddresses addresses 0 = .ok g := ⟨_, rfl⟩
  have distinct : (g.withPort 9999).addresses.Nodup := by
    rw [addresses_withPort, addresses_ofAddresses accepted]
    decide
  have numbered := (numbered_ofAddresses accepted).withPort 9999
  exact ⟨g, accepted, by decide, distinct, numbered.forall_memberAt_iff.mpr distinct⟩

end Group

end Concord
