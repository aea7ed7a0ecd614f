import Concord.Proofs.Order.Coherence

/-!
Who is missing from which ballot. Of the calls of an agreement only three matter here: a new message
lacks all other live members, a proposal that counts takes one off, and a removal takes one off
everywhere. A ballot that is decided lacked nobody.
-/

namespace Concord.Agreement

variable {a a' : Agreement} {id : MessageId} {r : MemberId}

/-- The message is still open, and lacks the proposal of this live member. -/
def Lacks (a : Agreement) (id : MessageId) (r : MemberId) : Prop :=
  r ∈ a.live ∧ ∃ b, a.ballots.get? id = some b ∧ b.get? r = none

theorem lacks_frame (live : a'.live = a.live) (ballots : a'.ballots = a.ballots) :
    a'.Lacks id r ↔ a.Lacks id r := by
  rw [Lacks, Lacks, live, ballots]

theorem lacks_decide? (member : a.self ∈ a.live) (k : MessageId) :
    (a.decide? k).1.Lacks id r ↔ a.Lacks id r := by
  rcases a.decide?_cases member k with ⟨same, -⟩ | ⟨b, s, found, whole, -, result⟩
  · rw [same]
  · obtain ⟨-, live, -, ballots⟩ := (a.closed k).adopt_frame ⟨k, s⟩
    rw [result, lacks_frame live ballots]
    unfold Lacks closed
    simp only [Table.get?_erase]
    constructor
    · rintro ⟨present, c, open_, absent⟩
      split at open_
      · cases open_
      · exact ⟨present, c, open_, absent⟩
    · rintro ⟨present, c, open_, absent⟩
      have other : k ≠ id := by
        intro same
        subst same
        obtain ⟨number, cast⟩ := whole r present
        obtain rfl := Option.some.inj (found.symm.trans open_)
        cases cast.symm.trans absent
      exact ⟨present, c, (if_neg other).trans open_, absent⟩

theorem lacks_decideAll (member : a.self ∈ a.live) (ids : List MessageId) :
    (a.decideAll ids).1.Lacks id r ↔ a.Lacks id r := by
  induction ids generalizing a with
  | nil => exact Iff.rfl
  | cons k rest ih =>
    obtain ⟨self, live⟩ := a.decide?_frame k
    have stays : (a.decide? k).1.self ∈ (a.decide? k).1.live := by
      rw [self, live]
      exact member
    exact (ih stays).trans (lacks_decide? member k)

theorem mem_others : r ∈ a.others ↔ r ∈ a.live ∧ r ≠ a.self := by
  rw [others, List.mem_filter, decide_eq_true_eq, Roll.mem_iff]

theorem lacks_drafted {m : Message} {number : UInt32} :
    (a.drafted m number).Lacks id r ↔ id = m.id ∧ r ∈ a.others ∨ id ≠ m.id ∧ a.Lacks id r := by
  have ballots : (a.drafted m number).ballots.get? id =
      if m.id = id then some (Table.empty.put a.self number) else a.ballots.get? id :=
    Table.get?_put _ _ _ _
  have first : (Table.empty.put a.self number : Ballot).get? r =
      if a.self = r then some number else none := Table.get?_put _ _ _ _
  have live : (a.drafted m number).live = a.live := rfl
  unfold Lacks
  rw [ballots, live, mem_others]
  by_cases here : id = m.id
  · subst here
    simp [first, eq_comm]
  · simp [here, Ne.symm here]

theorem lacks_tallied (x : Proposal) : (a.tallied x).Lacks id r ↔
    a.Lacks id r ∧ ¬ (id = x.id ∧ r = x.stamp.proposer) := by
  cases found : a.ballots.get? x.id with
  | none =>
    have same : a.tallied x = a := by rw [tallied, found]
    rw [same]
    constructor
    · intro lacks
      refine ⟨lacks, ?_⟩
      rintro ⟨about, -⟩
      obtain ⟨-, b, open_, -⟩ := lacks
      rw [about, found] at open_
      cases open_
    · exact And.left
  | some b =>
    have ballots : (a.tallied x).ballots.get? id =
        if x.id = id then some (b.put x.stamp.proposer x.stamp.number) else a.ballots.get? id := by
      rw [tallied_eq found]
      exact Table.get?_put _ _ _ _
    have filled : (b.put x.stamp.proposer x.stamp.number).get? r =
        if x.stamp.proposer = r then some x.stamp.number else b.get? r := Table.get?_put _ _ _ _
    unfold Lacks
    rw [ballots, (a.tallied_frame x).2]
    by_cases here : id = x.id
    · subst here
      by_cases voter : r = x.stamp.proposer
      · subst voter
        simp [found, filled]
      · simp [found, filled, voter, Ne.symm voter]
    · simp [here, Ne.symm here]

theorem lacks_without {other : MemberId} :
    (a.without other).Lacks id r ↔ a.Lacks id r ∧ r ≠ other := by
  unfold Lacks without
  rw [Roll.mem_erase]
  constructor
  · rintro ⟨⟨present, kept⟩, missing⟩
    exact ⟨⟨present, missing⟩, kept⟩
  · rintro ⟨⟨present, missing⟩, kept⟩
    exact ⟨⟨present, kept⟩, missing⟩

/-- No ballot lacks the proposal of its own member. -/
theorem Coherent.not_lacks_self (h : a.Coherent) : ¬ a.Lacks id a.self := by
  rintro ⟨-, b, open_, absent⟩
  obtain ⟨number, cast⟩ := h.cast_self id b open_
  cases cast.symm.trans absent

theorem lacks_create (member : a.self ∈ a.live) {payload : UInt32} {m : Message}
    {s : Option Settlement} (ok : a.create payload = .ok (a', m, s)) :
    a'.Lacks id r ↔ id = m.id ∧ r ∈ a.others ∨ id ≠ m.id ∧ a.Lacks id r := by
  obtain ⟨created, number, -, -, -, same⟩ := create_eq_ok ok
  obtain rfl : a' = _ := congrArg Prod.fst same
  rw [lacks_decide? (a := a.drafted m number) member, lacks_drafted]

theorem lacks_count (member : a.self ∈ a.live) (x : Proposal) : (a.count x).1.Lacks id r ↔
    a.Lacks id r ∧ ¬ (id = x.id ∧ r = x.stamp.proposer) := by
  have stays : (a.tallied x).self ∈ (a.tallied x).live := by
    rw [(a.tallied_frame x).1, (a.tallied_frame x).2]
    exact member
  rw [count_eq, lacks_decide? stays, lacks_tallied]

/-- A removal that has no effect concerns nobody who is missing from a ballot. -/
theorem lacks_remove (h : a.Coherent) (other : MemberId) :
    (a.remove other).1.Lacks id r ↔ a.Lacks id r ∧ r ≠ other := by
  unfold remove
  split
  · rename_i idle
    constructor
    · intro lacks
      refine ⟨lacks, fun same => ?_⟩
      subst same
      rcases idle with self | absent
      · rw [self] at lacks
        exact h.not_lacks_self lacks
      · exact absent lacks.1
    · exact And.left
  · rename_i effective
    have stays : (a.without other).self ∈ (a.without other).live :=
      Roll.mem_erase.mpr ⟨h.self_live, fun self => effective (.inl self.symm)⟩
    exact (lacks_decideAll stays _).trans lacks_without

theorem mem_live_remove {other : MemberId} :
    r ∈ (a.remove other).1.live ↔ r ∈ a.live ∧ (r ≠ other ∨ other = a.self) := by
  unfold remove
  split
  · rename_i idle
    constructor
    · intro present
      refine ⟨present, ?_⟩
      rcases idle with self | absent
      · exact .inr self
      · exact .inl fun same => absent (same ▸ present)
    · exact And.left
  · rename_i effective
    have live : ((a.without other).decideAll a.ballots.keys).1.live = a.live.erase other :=
      (decideAll_frame _ _).2
    change r ∈ ((a.without other).decideAll a.ballots.keys).1.live ↔ _
    rw [live, Roll.mem_erase]
    constructor
    · rintro ⟨present, kept⟩
      exact ⟨present, .inl kept⟩
    · rintro ⟨present, kept | self⟩
      · exact ⟨present, kept⟩
      · exact absurd (.inl self) effective

theorem propose_frame (a : Agreement) (m : Message) :
    (a.propose m).1.self = a.self ∧ (a.propose m).1.live = a.live ∧
    (a.propose m).1.created = a.created ∧ (a.propose m).1.ballots = a.ballots := by
  rcases a.propose_cases m with same | ⟨x, -, same⟩ | ⟨number, -, -, -, -, new⟩
  · rw [same]
    exact ⟨rfl, rfl, rfl, rfl⟩
  · rw [same]
    exact ⟨rfl, rfl, rfl, rfl⟩
  · rw [new]
    exact ⟨rfl, rfl, rfl, rfl⟩

theorem live_count (a : Agreement) (x : Proposal) : (a.count x).1.live = a.live := by
  rw [count_eq, (decide?_frame _ _).2, (a.tallied_frame x).2]

theorem created_decide? (a : Agreement) (k : MessageId) : (a.decide? k).1.created = a.created := by
  unfold decide?
  split
  · rfl
  · split
    · split
      · rfl
      · rename_i s _
        exact ((a.closed k).adopt_frame ⟨k, s⟩).2.2.1
    · rfl

theorem created_decideAll (a : Agreement) (ids : List MessageId) :
    (a.decideAll ids).1.created = a.created := by
  induction ids generalizing a with
  | nil => rfl
  | cons k rest ih => exact (ih (a.decide? k).1).trans (a.created_decide? k)

theorem create_frame {payload : UInt32} {m : Message} {s : Option Settlement}
    (ok : a.create payload = .ok (a', m, s)) : a'.self = a.self ∧ a'.live = a.live ∧
      a'.created = m.id.number ∧ after? a.created = some m.id.number := by
  obtain ⟨created, number, next, -, rfl, same⟩ := create_eq_ok ok
  obtain rfl : a' = _ := congrArg Prod.fst same
  obtain ⟨self, live⟩ := (a.drafted ⟨⟨a.self, created⟩, payload⟩ number).decide?_frame
    ⟨a.self, created⟩
  exact ⟨self, live, created_decide? _ _, next⟩

theorem self_remove (a : Agreement) (other : MemberId) : (a.remove other).1.self = a.self := by
  unfold remove
  split
  · rfl
  · exact (decideAll_frame _ _).1

namespace Change

/-- Whoever is not live will never be again. -/
theorem live_subset (change : Change a a') (present : r ∈ a'.live) : r ∈ a.live := by
  cases change with
  | same => exact present
  | drafted => rwa [(decide?_frame _ _).2] at present
  | answered => exact present
  | tallied p => rwa [(decide?_frame _ _).2, (a.tallied_frame p).2] at present
  | adopted d => rwa [(a.adopt_frame d).2.1] at present
  | removed =>
    rw [(decideAll_frame _ _).2] at present
    exact (Roll.mem_erase.mp present).1

theorem created_le (change : Change a a') : a.created ≤ a'.created := by
  cases change with
  | same => exact UInt32.le_refl _
  | @drafted m number own created next =>
    rw [created_decide?]
    exact UInt32.le_of_lt (lt_after created (UInt32.le_refl _))
  | answered => exact UInt32.le_refl _
  | tallied p =>
    rw [created_decide?]
    unfold Agreement.tallied
    split <;> exact UInt32.le_refl _
  | adopted d =>
    rw [(a.adopt_frame d).2.2.1]
    exact UInt32.le_refl _
  | removed =>
    rw [created_decideAll]
    exact UInt32.le_refl _

end Change

end Concord.Agreement
