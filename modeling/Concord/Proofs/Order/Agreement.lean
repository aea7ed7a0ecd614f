import Concord.Order.Agreement
import Concord.Proofs.Order.Ballot
import Concord.Proofs.Order.HoldBack
import Concord.Proofs.Order.SeenIds

/-!
What each operation of the agreement can do. A decision is adopted by the queue alone, deliveries
leave the cache of answers and enter the record of what was seen, and an own message is decided
exactly when every live member has proposed.
-/

namespace Concord

namespace Agreement

theorem after?_eq_some {n k : UInt32} (h : after? n = some k) : k.toNat = n.toNat + 1 := by
  unfold after? at h
  split at h
  · cases h
  · rename_i below
    cases h
    have small := n.toNat_lt
    have : n.toNat ≠ 0xFFFFFFFF := fun e => below (UInt32.toNat.inj e)
    rw [UInt32.toNat_add]
    simp only [UInt32.reduceToNat]
    omega

theorem eq_of_after? {n k : UInt32} (h : after? n = some k) : k = n + 1 := by
  unfold after? at h
  split at h <;> cases h
  rfl

theorem lt_after {n k m : UInt32} (h : after? n = some k) (hm : m ≤ n) : m < k := by
  rw [UInt32.lt_iff_toNat_lt, after?_eq_some h]
  rw [UInt32.le_iff_toNat_le] at hm
  omega

theorem le_max (a b : UInt32) : a ≤ max a b ∧ b ≤ max a b := by
  change (a ≤ if a ≤ b then b else a) ∧ (b ≤ if a ≤ b then b else a)
  split
  · exact ⟨‹_›, UInt32.le_refl _⟩
  · exact ⟨UInt32.le_refl _, UInt32.le_of_lt (UInt32.not_le.mp ‹_›)⟩

/-- A member that delivered some messages, apart from its queue. -/
def recordAll (a : Agreement) (ms : List Message) : Agreement := ms.foldl recordDelivery a

theorem recordAll_frame (a : Agreement) (ms : List Message) :
    (a.recordAll ms).self = a.self ∧ (a.recordAll ms).live = a.live ∧
    (a.recordAll ms).created = a.created ∧ (a.recordAll ms).latest = a.latest ∧
    (a.recordAll ms).ballots = a.ballots ∧ (a.recordAll ms).queue = a.queue := by
  unfold recordAll
  induction ms generalizing a with
  | nil => exact ⟨rfl, rfl, rfl, rfl, rfl, rfl⟩
  | cons m rest ih => exact ih (a.recordDelivery m)

theorem recordAll_answers (a : Agreement) (ms : List Message) (id : MessageId) :
    (a.recordAll ms).answers.get? id =
      if id ∈ ms.map Message.id then none else a.answers.get? id := by
  unfold recordAll
  induction ms generalizing a with
  | nil => simp
  | cons m rest ih =>
    rw [List.foldl_cons, ih]
    by_cases here : m.id = id
    · simp [recordDelivery, Table.get?_erase, here]
    · simp [recordDelivery, Table.get?_erase, here, Ne.symm here]

theorem hasDelivered_recordDelivery (a : Agreement) (m : Message) {id : MessageId}
    (h : id = m.id ∨ a.hasDelivered id = true) : (a.recordDelivery m).hasDelivered id = true := by
  unfold hasDelivered recordDelivery at *
  rw [Table.get?_put]
  by_cases same : m.id.sender = id.sender
  · simp only [if_pos same, SeenIds.contains_insert]
    rcases h with rfl | seen
    · exact .inl rfl
    · rw [← same] at seen
      cases found : a.seen.get? m.id.sender with
      | none => simp [found] at seen
      | some ids =>
        rw [found] at seen
        exact .inr seen
  · have other : id ≠ m.id := fun e => same (congrArg MessageId.sender e).symm
    rw [if_neg same]
    exact h.resolve_left other

theorem hasDelivered_recordAll (a : Agreement) (ms : List Message) {id : MessageId}
    (h : id ∈ ms.map Message.id ∨ a.hasDelivered id = true) :
    (a.recordAll ms).hasDelivered id = true := by
  unfold recordAll
  induction ms generalizing a with
  | nil => exact h.resolve_left List.not_mem_nil
  | cons m rest ih =>
    apply ih (a.recordDelivery m)
    rcases h with listed | seen
    · rcases List.mem_cons.mp listed with here | later
      · exact .inr (hasDelivered_recordDelivery a m (.inl here))
      · exact .inl later
    · exact .inr (hasDelivered_recordDelivery a m (.inr seen))

theorem adopt_eq {a : Agreement} (h : a.queue.Sound) (d : Decision) : a.adopt d =
    ({ a with latest := max a.latest d.stamp.number, queue := (a.queue.adopt d).1 }.recordAll
      (a.queue.adopt d).2, (a.queue.adopt d).2) := by
  unfold adopt HoldBack.adopt
  by_cases waits : d.id ∈ a.queue.waiting
  · simp only [if_pos waits]
    have settled := HoldBack.settle_eq h d.id d.stamp
    rw [decide_eq_true waits] at settled
    simp only [settled]
    rfl
  · have settled := HoldBack.settle_eq h d.id d.stamp
    rw [decide_eq_false waits] at settled
    simp only [if_neg waits, settled]
    rfl

theorem adopt_frame (a : Agreement) (d : Decision) :
    (a.adopt d).1.self = a.self ∧ (a.adopt d).1.live = a.live ∧
    (a.adopt d).1.created = a.created ∧ (a.adopt d).1.ballots = a.ballots := by
  unfold adopt
  dsimp only
  split
  · rename_i queue _
    have frame := recordAll_frame
      { a with latest := max a.latest d.stamp.number, queue := queue.release.1 } queue.release.2
    exact ⟨frame.1, frame.2.1, frame.2.2.1, frame.2.2.2.2.1⟩
  · exact ⟨rfl, rfl, rfl, rfl⟩

theorem adopt_latest (a : Agreement) (d : Decision) :
    (a.adopt d).1.latest = max a.latest d.stamp.number := by
  unfold adopt
  dsimp only
  split
  · exact (recordAll_frame _ _).2.2.2.1
  · rfl

section Adopt

variable {a : Agreement} (h : a.queue.Sound) (d : Decision)

include h

theorem adopt_queue : (a.adopt d).1.queue = (a.queue.adopt d).1 := by
  rw [adopt_eq h]
  exact (recordAll_frame _ _).2.2.2.2.2

theorem adopt_snd : (a.adopt d).2 = (a.queue.adopt d).2 := by
  rw [adopt_eq h]

theorem adopt_answers (id : MessageId) : (a.adopt d).1.answers.get? id =
    if id ∈ (a.adopt d).2.map Message.id then none else a.answers.get? id := by
  rw [adopt_eq h]
  exact recordAll_answers _ _ id

theorem hasDelivered_adopt {id : MessageId}
    (seen : id ∈ (a.adopt d).2.map Message.id ∨ a.hasDelivered id = true) :
    (a.adopt d).1.hasDelivered id = true := by
  rw [adopt_eq h] at seen ⊢
  exact hasDelivered_recordAll _ _ seen

end Adopt

/-- A member that no longer counts proposals for a message. -/
def closed (a : Agreement) (id : MessageId) : Agreement := { a with ballots := a.ballots.erase id }

theorem complete_iff {a : Agreement} {b : Ballot} :
    a.complete b = true ↔ ∀ r ∈ a.live, ∃ k, b.get? r = some k := by
  simp only [complete, List.all_eq_true, Table.contains_iff, Roll.mem_iff]

/-- An own message whose ballot is complete is decided by the winner and adopted at once; any other
is left alone. -/
theorem decide?_cases {a : Agreement} (member : a.self ∈ a.live) (id : MessageId) :
    (a.decide? id = (a, none) ∧
      ∀ b, a.ballots.get? id = some b → ∃ r ∈ a.live, b.get? r = none) ∨
    ∃ b s, a.ballots.get? id = some b ∧ (∀ r ∈ a.live, ∃ k, b.get? r = some k) ∧
      b.winner? = some s ∧
      a.decide? id = (((a.closed id).adopt ⟨id, s⟩).1,
        some ⟨⟨id, s⟩, ((a.closed id).adopt ⟨id, s⟩).2⟩) := by
  unfold decide?
  cases found : a.ballots.get? id with
  | none => exact .inl ⟨rfl, fun b h => by cases h⟩
  | some b =>
    by_cases whole : a.complete b = true
    · have all := complete_iff.mp whole
      obtain ⟨k, cast⟩ := all a.self member
      obtain ⟨s, won⟩ := Ballot.exists_winner cast
      exact .inr ⟨b, s, rfl, all, won, by simp only [if_pos whole, won, closed]⟩
    · refine .inl ⟨by simp only [if_neg whole], fun b' h => ?_⟩
      cases h
      have lacking := mt complete_iff.mpr whole
      push Not at lacking
      obtain ⟨r, live, absent⟩ := lacking
      exact ⟨r, live, Option.eq_none_iff_forall_ne_some.mpr absent⟩

theorem decide?_frame (a : Agreement) (id : MessageId) :
    (a.decide? id).1.self = a.self ∧ (a.decide? id).1.live = a.live := by
  unfold decide?
  split
  · exact ⟨rfl, rfl⟩
  · rename_i b _
    split
    · split
      · exact ⟨rfl, rfl⟩
      · rename_i s _
        have frame := adopt_frame (a.closed id) ⟨id, s⟩
        exact ⟨frame.1, frame.2.1⟩
    · exact ⟨rfl, rfl⟩

theorem decideAll_frame (a : Agreement) (ids : List MessageId) :
    (a.decideAll ids).1.self = a.self ∧ (a.decideAll ids).1.live = a.live := by
  induction ids generalizing a with
  | nil => exact ⟨rfl, rfl⟩
  | cons id rest ih =>
    obtain ⟨self, live⟩ := ih (a.decide? id).1
    obtain ⟨self', live'⟩ := a.decide?_frame id
    exact ⟨self.trans self', live.trans live'⟩

/-- A member with a new message of its own and its own proposal for it. -/
def drafted (a : Agreement) (m : Message) (number : UInt32) : Agreement :=
  { a with
    created := m.id.number
    latest := number
    queue := (a.queue.add m ⟨number, a.self⟩).1
    ballots := a.ballots.put m.id (Table.empty.put a.self number) }

theorem create_eq (a : Agreement) (payload : UInt32) : a.create payload =
    match after? a.created, after? a.latest with
    | none, _ => .error .messageNumbers
    | _, none => .error .sequenceNumbers
    | some created, some number =>
      let b := (a.drafted ⟨⟨a.self, created⟩, payload⟩ number).decide? ⟨a.self, created⟩
      .ok (b.1, ⟨⟨a.self, created⟩, payload⟩, b.2) := by
  unfold create tryCreate
  cases after? a.created <;> cases after? a.latest <;> rfl

theorem create_eq_ok {a a' : Agreement} {payload : UInt32} {m : Message} {s : Option Settlement}
    (h : a.create payload = .ok (a', m, s)) :
    ∃ created number, after? a.created = some created ∧ after? a.latest = some number ∧
      m = ⟨⟨a.self, created⟩, payload⟩ ∧ (a', s) = (a.drafted m number).decide? m.id := by
  rw [create_eq] at h
  split at h
  · cases h
  · cases h
  · rename_i created number hc hn
    cases h
    exact ⟨created, number, hc, hn, rfl, rfl⟩

/-- Where no message is created nothing has changed. -/
theorem tryCreate_eq (a : Agreement) (payload : UInt32) : a.tryCreate payload =
    match a.create payload with
    | .error e => (a, .error e)
    | .ok (b, m, s) => (b, .ok (m, s)) := by
  rw [create_eq, tryCreate]
  cases after? a.created <;> cases after? a.latest <;> rfl

/-- A member with a new message of another member, and its answer to it. -/
def answered (a : Agreement) (m : Message) (number : UInt32) : Agreement :=
  { a with
    latest := number
    queue := (a.queue.add m ⟨number, a.self⟩).1
    answers := a.answers.put m.id ⟨m.id, ⟨number, a.self⟩⟩ }

/-- A message is ignored, answered as before, or new. -/
theorem propose_cases (a : Agreement) (m : Message) :
    a.propose m = (a, none) ∨
    (∃ x, a.answers.get? m.id = some x ∧ a.propose m = (a, some x)) ∨
    ∃ number, m.id.sender ≠ a.self ∧ a.answers.get? m.id = none ∧ a.hasDelivered m.id = false ∧
      after? a.latest = some number ∧
      a.propose m = (a.answered m number, some ⟨m.id, ⟨number, a.self⟩⟩) := by
  unfold propose
  split
  · exact .inl rfl
  · rename_i foreign
    split
    · rename_i x hx
      exact .inr (.inl ⟨x, hx, rfl⟩)
    · rename_i none
      split
      · exact .inl rfl
      · rename_i unseen
        split
        · exact .inl rfl
        · rename_i number hn
          exact .inr (.inr ⟨number, foreign, none, Bool.not_eq_true _ ▸ unseen, hn, rfl⟩)

/-- A proposal put into the ballot of its message, if that is open. -/
def tallied (a : Agreement) (p : Proposal) : Agreement :=
  match a.ballots.get? p.id with
  | none => a
  | some b => { a with ballots := a.ballots.put p.id (b.put p.stamp.proposer p.stamp.number) }

theorem tallied_eq {a : Agreement} {p : Proposal} {b : Ballot}
    (found : a.ballots.get? p.id = some b) : a.tallied p =
      { a with ballots := a.ballots.put p.id (b.put p.stamp.proposer p.stamp.number) } := by
  rw [tallied, found]

theorem closed_tallied (a : Agreement) (p : Proposal) :
    (a.tallied p).closed p.id = a.closed p.id := by
  unfold tallied
  split
  · rfl
  · simp only [closed, Table.erase_put]

theorem count_eq (a : Agreement) (p : Proposal) : a.count p = (a.tallied p).decide? p.id := by
  unfold count tallied
  cases found : a.ballots.get? p.id with
  | none => simp only [decide?, found]
  | some b => rfl

/-- The ballot of a message, if it is open, lacks the proposal of a live member. -/
def Stalled (a : Agreement) (id : MessageId) : Prop :=
  ∀ b, a.ballots.get? id = some b → ∃ r ∈ a.live, b.get? r = none

theorem stalled_decide? {a : Agreement} (member : a.self ∈ a.live) (id : MessageId)
    {k : MessageId} (h : k = id ∨ a.Stalled k) : (a.decide? id).1.Stalled k := by
  rcases a.decide?_cases member id with ⟨same, lacks⟩ | ⟨b, s, -, -, -, result⟩
  · rw [same]
    exact h.elim (fun here => here ▸ lacks) (fun before => before)
  · obtain ⟨-, live, -, ballots⟩ := adopt_frame (a.closed id) ⟨id, s⟩
    rw [result]
    intro c open_
    rw [ballots, closed, Table.get?_erase] at open_
    split at open_
    · cases open_
    · rename_i other
      rw [live]
      exact h.resolve_left (Ne.symm other) c open_

theorem stalled_drafted {a : Agreement} {m : Message} {number : UInt32} {k : MessageId}
    (other : k ≠ m.id) (h : a.Stalled k) : (a.drafted m number).Stalled k := by
  intro b found
  rw [drafted, Table.get?_put, if_neg (Ne.symm other)] at found
  exact h b found

theorem stalled_tallied {a : Agreement} {x : Proposal} {k : MessageId} (other : k ≠ x.id)
    (h : a.Stalled k) : (a.tallied x).Stalled k := by
  unfold tallied
  split
  · exact h
  · intro b found
    rw [Table.get?_put, if_neg (Ne.symm other)] at found
    exact h b found

/-- Trying all open ballots leaves only those that lack a proposal. -/
theorem stalled_decideAll {a : Agreement} (member : a.self ∈ a.live) (ids : List MessageId)
    {k : MessageId} (h : k ∈ ids ∨ a.Stalled k) : (a.decideAll ids).1.Stalled k := by
  induction ids generalizing a with
  | nil => exact h.resolve_left List.not_mem_nil
  | cons id rest ih =>
    obtain ⟨self, live⟩ := a.decide?_frame id
    have stays : (a.decide? id).1.self ∈ (a.decide? id).1.live := by
      rw [self, live]
      exact member
    apply ih stays
    rcases h with listed | before
    · rcases List.mem_cons.mp listed with here | later
      · exact .inr (stalled_decide? member id (.inl here))
      · exact .inl later
    · exact .inr (stalled_decide? member id (.inr before))

end Agreement

end Concord
