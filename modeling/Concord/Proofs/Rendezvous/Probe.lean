import Concord.Proofs.Signal
import Concord.Rendezvous.Probe
import Concord.Run.Stage
import Mathlib.Data.List.Forall2

/-!
What a probe has come to after some signals: it knows whose probe was heard and who has answered,
and nothing else. Only the signals of others in the group count, and only their probes are answered.
-/

namespace Concord

theorem Group.mem_others_iff {g : Group} {m : MemberId} :
    m ∈ g.others ↔ g.contains m = true ∧ m ≠ g.self := by
  simp only [others, ids, contains, List.mem_filter, List.mem_map, List.any_eq_true,
    decide_eq_true_eq]

theorem Group.exists_addressOf_of_mem_others {g : Group} {m : MemberId} (other : m ∈ g.others) :
    ∃ a, g.addressOf m = some a :=
  exists_addressOf (List.mem_filter.mp other).1

/-- Everyone else has been heard and has answered. -/
def Group.Ready (g : Group) (past : List Signal) : Prop :=
  ∀ m ∈ g.others, .alive m ∈ past ∧ .aliveAnswer m ∈ past

instance (g : Group) (past : List Signal) : Decidable (g.Ready past) :=
  inferInstanceAs (Decidable (∀ m ∈ g.others, Signal.alive m ∈ past ∧ Signal.aliveAnswer m ∈ past))

/-- Those who have not answered yet. -/
def Group.unanswered (g : Group) (past : List Signal) : List MemberId :=
  g.others.filter fun m => Signal.aliveAnswer m ∉ past

/-- The signal that a datagram holds, if it holds one. -/
def Signal.read? (bytes : Bytes) : Option Signal :=
  match decode bytes with
  | .ok s => some s
  | .error _ => none

/-- A datagram that probes a member. -/
def Group.Probes (g : Group) (m : MemberId) (datagram : Address × Bytes) : Prop :=
  g.addressOf m = some datagram.1 ∧ datagram.2 = (Signal.alive g.self).encode

/-- Whether a datagram can matter to a member at all. -/
def Group.Heeds (g : Group) (bytes : Bytes) : Prop :=
  ∃ m ∈ g.others, Signal.read? bytes = some (.alive m) ∨ Signal.read? bytes = some (.aliveAnswer m)

/-- What a datagram is answered with. -/
def Group.replies (g : Group) (now : Instant) (source : Address) (bytes : Bytes) : List Sent :=
  match Signal.read? bytes with
  | some (.alive m) =>
    if m ∈ g.others then [⟨now, source, (Signal.aliveAnswer g.self).encode⟩] else []
  | _ => []

namespace Probe

theorem hear_cases (p : Probe) (g : Group) (source : Address) (s : Signal) :
    p.hear g source s = (p, .none) ∨
    (∃ m, s = .alive m ∧ p.hear g source s =
      ({ p with heardFrom := p.heardFrom.insert m },
        some (source, (Signal.aliveAnswer g.self).encode))) ∨
    (∃ m, s = .aliveAnswer m ∧ p.hear g source s =
      ({ p with answeredBy := p.answeredBy.insert m }, .none)) := by
  unfold hear
  split
  · cases s with
    | alive m => exact .inr (.inl ⟨m, rfl, rfl⟩)
    | aliveAnswer m => exact .inr (.inr ⟨m, rfl, rfl⟩)
    | heartbeat m => exact .inl rfl
  · exact .inl rfl

theorem complete_iff {p : Probe} {others : List MemberId} :
    p.complete others = true ↔ ∀ m ∈ others, m ∈ p.answeredBy ∧ m ∈ p.heardFrom := by
  simp only [complete, List.all_eq_true, Bool.and_eq_true, decide_eq_true_eq]

variable {p : Probe} {g : Group} {past : List Signal} {m : MemberId}

theorem hear_alive (p : Probe) (source : Address) (other : m ∈ g.others) :
    p.hear g source (.alive m) = ({ p with heardFrom := p.heardFrom.insert m },
      some (source, (Signal.aliveAnswer g.self).encode)) :=
  if_pos (Group.mem_others_iff.mp other)

theorem hear_aliveAnswer (p : Probe) (source : Address) (other : m ∈ g.others) :
    p.hear g source (.aliveAnswer m) = ({ p with answeredBy := p.answeredBy.insert m }, .none) :=
  if_pos (Group.mem_others_iff.mp other)

/-- Every other signal is ignored. -/
theorem hear_eq_self (p : Probe) (source : Address) {s : Signal}
    (foreign : ∀ m ∈ g.others, s ≠ .alive m ∧ s ≠ .aliveAnswer m) :
    p.hear g source s = (p, .none) := by
  unfold hear
  split
  · rename_i known
    have other : s.member ∈ g.others := Group.mem_others_iff.mpr known
    cases s with
    | alive m => exact absurd rfl (foreign m other).1
    | aliveAnswer m => exact absurd rfl (foreign m other).2
    | heartbeat m => rfl
  · rfl

theorem hear_replies (p : Probe) (now : Instant) (source : Address) {bytes : Bytes} {s : Signal}
    (read : Signal.read? bytes = some s) :
    Sent.all now (p.hear g source s).2.toList = g.replies now source bytes := by
  unfold Group.replies
  rw [read]
  unfold hear
  cases s with
  | alive m =>
    simp only [Signal.member, ← Group.mem_others_iff]
    split <;> rfl
  | aliveAnswer m => split <;> rfl
  | heartbeat m => split <;> rfl

/-- What is known of the others is what the signals have told. -/
structure Reflects (g : Group) (past : List Signal) (p : Probe) : Prop where
  heard : ∀ m ∈ g.others, m ∈ p.heardFrom ↔ .alive m ∈ past
  answered : ∀ m ∈ g.others, m ∈ p.answeredBy ↔ .aliveAnswer m ∈ past

theorem reflects_none (g : Group) : Reflects g [] none := by
  constructor
  · exact fun m _ => iff_of_false (Roll.not_mem_empty m) List.not_mem_nil
  · exact fun m _ => iff_of_false (Roll.not_mem_empty m) List.not_mem_nil

theorem Reflects.hear (h : Reflects g past p) (source : Address) (s : Signal) :
    Reflects g (past ++ [s]) (p.hear g source s).1 := by
  by_cases probed : ∃ m ∈ g.others, s = .alive m
  · obtain ⟨m, other, rfl⟩ := probed
    rw [hear_alive p source other]
    constructor
    · intro k hk
      simp [Roll.mem_insert, h.heard k hk, or_comm]
    · intro k hk
      simp [h.answered k hk]
  by_cases answered : ∃ m ∈ g.others, s = .aliveAnswer m
  · obtain ⟨m, other, rfl⟩ := answered
    rw [hear_aliveAnswer p source other]
    constructor
    · intro k hk
      simp [h.heard k hk]
    · intro k hk
      simp [Roll.mem_insert, h.answered k hk, or_comm]
  have foreign : ∀ m ∈ g.others, s ≠ .alive m ∧ s ≠ .aliveAnswer m := fun m other =>
    ⟨fun same => probed ⟨m, other, same⟩, fun same => answered ⟨m, other, same⟩⟩
  rw [hear_eq_self p source foreign]
  constructor
  · intro k hk
    simp [h.heard k hk, (foreign k hk).1.symm]
  · intro k hk
    simp [h.answered k hk, (foreign k hk).2.symm]

theorem Reflects.complete_iff (h : Reflects g past p) :
    p.complete g.others = true ↔ g.Ready past := by
  rw [Probe.complete_iff]
  refine forall₂_congr fun m other => ?_
  rw [h.heard m other, h.answered m other, and_comm]

/-- A round probes exactly those who have not answered. -/
theorem Reflects.round (h : Reflects g past p) :
    List.Forall₂ g.Probes (g.unanswered past) (p.round g) := by
  have silent : p.silent g.others = g.unanswered past := by
    refine List.filter_congr fun m other => ?_
    rw [decide_eq_decide, not_congr (h.answered m other)]
  rw [Probe.round, silent]
  have known : ∀ m ∈ g.unanswered past, m ∈ g.others := fun m hm => (List.mem_filter.mp hm).1
  generalize g.unanswered past = l at known
  induction l with
  | nil => exact .nil
  | cons m rest ih =>
    obtain ⟨here, others⟩ := List.forall_mem_cons.mp known
    obtain ⟨a, there⟩ := Group.exists_addressOf_of_mem_others here
    rw [List.filterMap_cons_some there, List.map_cons]
    exact .cons ⟨there, rfl⟩ (ih others)

end Probe

end Concord
