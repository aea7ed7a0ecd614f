import Concord.Proofs.Group.Lookup

/-!
The fixed membership of a cluster. Where no id and no address occurs twice, a member and its address
determine each other, whichever member looks them up.
-/

namespace Concord

structure Roster where
  members : List Member
  ids_distinct : (members.map Member.id).Nodup
  addresses_distinct : (members.map Member.address).Nodup

namespace Roster

def ids (r : Roster) : List MemberId := r.members.map Member.id

/-- The group as one of its members sees it. -/
def group (r : Roster) (self : MemberId) : Group := ⟨self, r.members⟩

/-- Every member finds the same address for a member. -/
def addressOf (r : Roster) (id : MemberId) : Option Address := (r.group id).addressOf id

theorem addressOf_eq_some {r : Roster} {id : MemberId} {a : Address} :
    r.addressOf id = some a ↔ ∃ m ∈ r.members, m.id = id ∧ m.address = a :=
  Group.addressOf_eq_some_iff (g := r.group id) r.ids_distinct

theorem mem_ids_of_addressOf {r : Roster} {id : MemberId} {a : Address}
    (h : r.addressOf id = some a) : id ∈ r.ids := by
  obtain ⟨m, hm, rfl, -⟩ := addressOf_eq_some.mp h
  exact List.mem_map_of_mem hm

theorem exists_addressOf {r : Roster} {id : MemberId} (member : id ∈ r.ids) :
    ∃ a, r.addressOf id = some a := by
  obtain ⟨m, hm, same⟩ := List.mem_map.mp member
  exact ⟨m.address, addressOf_eq_some.mpr ⟨m, hm, same, rfl⟩⟩

theorem addressOf_injective {r : Roster} {p q : MemberId} {a : Address}
    (hp : r.addressOf p = some a) (hq : r.addressOf q = some a) : p = q := by
  obtain ⟨m, hm, rfl, rfl⟩ := addressOf_eq_some.mp hp
  obtain ⟨k, hk, rfl, same⟩ := addressOf_eq_some.mp hq
  rw [List.inj_on_of_nodup_map r.addresses_distinct hk hm same]

/-- Every member finds the same member at an address. -/
def memberAt (r : Roster) (a : Address) : Option MemberId :=
  (r.members.find? (·.address = a)).map Member.id

theorem memberAt_eq_some {r : Roster} {id : MemberId} {a : Address} :
    r.memberAt a = some id ↔ r.addressOf id = some a := by
  rw [addressOf_eq_some]
  constructor
  · intro h
    obtain ⟨m, found, same⟩ := Option.map_eq_some_iff.mp h
    exact ⟨m, List.mem_of_find?_eq_some found, same, by simpa using List.find?_some found⟩
  · intro h
    exact Group.memberAt_of_addressOf (g := r.group id) r.addresses_distinct
      (addressOf_eq_some.mpr h)

/-- As long as there are ranks for all members, no two of them share one. -/
theorem idAt_injective {i j : Nat} (hi : i < Group.maxSize) (hj : j < Group.maxSize)
    (h : Group.idAt i = Group.idAt j) : i = j := by
  have ranks := congrArg (fun m => m.rank.toNat) h
  simp only [Group.rank_idAt hi, Group.rank_idAt hj] at ranks
  omega

/-- The members at pairwise distinct addresses. -/
def ofAddresses (addresses : List Address) (distinct : addresses.Nodup)
    (room : addresses.length ≤ Group.maxSize) : Roster where
  members := addresses.mapIdx fun i a => ⟨Group.idAt i, a.text, a⟩
  ids_distinct := by
    apply List.pairwise_iff_getElem.mpr
    intro i j hi hj lt same
    simp only [List.length_map, List.length_mapIdx] at hi hj
    simp only [List.getElem_map, List.getElem_mapIdx] at same
    exact Nat.ne_of_lt lt (idAt_injective (by omega) (by omega) same)
  addresses_distinct := by
    have kept : (addresses.mapIdx fun i a => (⟨Group.idAt i, a.text, a⟩ : Member)).map
        Member.address = addresses :=
      List.ext_getElem (by simp) fun i _ _ => by simp
    rw [kept]
    exact distinct

/-- A group of pairwise distinct addresses is the roster of these addresses, as its member in the
given place sees it. -/
theorem ofAddresses_group {addresses : List Address} (distinct : addresses.Nodup)
    {place : Nat} {g : Group} (h : Group.ofAddresses addresses place = .ok g) :
    ∃ room, g = (ofAddresses addresses distinct room).group (Group.idAt place) := by
  obtain ⟨-, room, same⟩ := Group.of_ofAddresses h
  exact ⟨room, same⟩

end Roster

end Concord
