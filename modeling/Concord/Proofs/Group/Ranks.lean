import Concord.Group.Basic

/-!
Resolving a list of hosts numbers its members by their places in the list, counted from one, and the
process itself by the place of its own host.
-/

namespace Concord

theorem exists_of_bind {ε α β : Type} {x : Except ε α} {f : α → Except ε β} {b : β}
    (h : (x >>= f) = .ok b) : ∃ a, x = .ok a ∧ f a = .ok b := by
  cases x with
  | error e => cases h
  | ok a => exact ⟨a, rfl, h⟩

/-- What is looked up one by one and kept beside its key stays in the order of the keys. -/
theorem map_fst_of_mapM {ε α β : Type} {f : α → Except ε (α × β)}
    (keyed : ∀ a found, f a = .ok found → found.1 = a) {l : List α} {k : List (α × β)}
    (h : l.mapM f = .ok k) : k.map Prod.fst = l := by
  induction l generalizing k with
  | nil =>
    cases h
    rfl
  | cons a rest ih =>
    rw [List.mapM_cons] at h
    obtain ⟨first, looked, h⟩ := exists_of_bind h
    obtain ⟨others, found, h⟩ := exists_of_bind h
    cases h
    rw [List.map_cons, keyed a first looked, ih found]

namespace Group

theorem rank_idAt {place : Nat} (h : place < maxSize) : (idAt place).rank.toNat = place + 1 := by
  have value : (idAt place).rank.toNat = (place + 1) % 2 ^ 32 := UInt32.toNat_ofNat'
  unfold maxSize at h
  omega

variable {lookup : String → Except String Host} {hosts : List String} {own : String}
  {port : UInt16} {g : Group}

theorem of_resolve (h : resolve lookup hosts own port = .ok g) :
    ∃ place, hosts.findIdx? (· = own) = some place ∧ hosts.length ≤ maxSize ∧
      g.self = idAt place ∧
      g.members.map (fun m => (m.id, m.host)) = hosts.mapIdx fun i host => (idAt i, host) := by
  unfold resolve at h
  split at h
  · cases h
  · rename_i place here
    obtain ⟨found, looked, h⟩ := exists_of_bind h
    have keys := map_fst_of_mapM (fun host found looked => by
      split at looked <;> cases looked
      rfl) looked
    split at h
    · cases h
    · rename_i enough
      cases h
      have length : found.length = min (maxSize + 1) hosts.length := by
        rw [← List.length_take, ← keys, List.length_map]
      have room : hosts.length ≤ maxSize := by omega
      rw [List.take_of_length_le (by omega)] at keys
      refine ⟨place, here, room, rfl, ?_⟩
      rw [← keys]
      exact List.ext_getElem (by simp) fun i _ _ => by simp

/-- Who resolves the group is in it. -/
theorem contains_self_of_resolve (h : resolve lookup hosts own port = .ok g) :
    g.contains g.self = true := by
  obtain ⟨place, here, -, self, members⟩ := of_resolve h
  have within : place < hosts.length := (List.findIdx?_eq_some_iff_getElem.mp here).1
  have numbered : (idAt place, hosts[place]) ∈ g.members.map fun m => (m.id, m.host) := by
    rw [members]
    exact List.mem_mapIdx.mpr ⟨place, within, rfl⟩
  obtain ⟨m, listed, same⟩ := List.mem_map.mp numbered
  refine List.any_eq_true.mpr ⟨m, listed, decide_eq_true ?_⟩
  rw [self]
  exact congrArg Prod.fst same

/-- Where no host is listed twice, the rank of a member is the place of its host. -/
theorem rank_of_resolve (distinct : hosts.Nodup) (h : resolve lookup hosts own port = .ok g) :
    (own ∈ hosts ∧ g.self.rank.toNat = hosts.idxOf own + 1) ∧
      ∀ m ∈ g.members, m.host ∈ hosts ∧ m.id.rank.toNat = hosts.idxOf m.host + 1 := by
  obtain ⟨place, here, room, self, members⟩ := of_resolve h
  have placed (i : Nat) (within : i < hosts.length) :
      hosts[i] ∈ hosts ∧ (idAt i).rank.toNat = hosts.idxOf hosts[i] + 1 := by
    rw [rank_idAt (by omega), distinct.idxOf_getElem i within]
    exact ⟨List.getElem_mem within, rfl⟩
  constructor
  · obtain ⟨within, same, -⟩ := List.findIdx?_eq_some_iff_getElem.mp here
    rw [self, ← of_decide_eq_true same]
    exact placed place within
  · intro m listed
    have numbered : (m.id, m.host) ∈ hosts.mapIdx fun i host => (idAt i, host) :=
      members ▸ List.mem_map.mpr ⟨m, listed, rfl⟩
    obtain ⟨i, within, same⟩ := List.mem_mapIdx.mp numbered
    obtain ⟨number, host⟩ := Prod.mk.inj same
    rw [← number, ← host]
    exact placed i within

end Group

end Concord
