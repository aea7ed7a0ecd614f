import Concord.Proofs.Order.Coherence

/-!
Calls that come again. A message that was not answered is never answered later: either it is an own
one, or it was delivered, or the sequence numbers are at their end, and none of this ever passes. A
decision that was followed once has nothing left to change.
-/

namespace Concord.Agreement

variable {a a' : Agreement}

theorem after?_eq_none {n : UInt32} : after? n = none ↔ n = 0xFFFFFFFF := by
  unfold after?
  split
  · simp_all
  · simp_all

theorem after?_of_ne {n : UInt32} (h : n ≠ 0xFFFFFFFF) : after? n = some (n + 1) := if_neg h

theorem max_eq_left {n k : UInt32} (h : k ≤ n) : max n k = n := by
  change (if n ≤ k then k else n) = n
  split
  · rename_i le
    exact UInt32.le_antisymm h le
  · rfl

/-- No number is above the last one. -/
theorem after?_max {n : UInt32} (h : after? n = none) (k : UInt32) : after? (max n k) = none := by
  have last : n = 0xFFFFFFFF := after?_eq_none.mp h
  have top : k ≤ n := by
    rw [last, UInt32.le_iff_toNat_le]
    have small := k.toNat_lt
    simp only [UInt32.reduceToNat]
    omega
  rw [max_eq_left top]
  exact h

/-- A decision that the queue knows, and that `latest` counts already, changes nothing. -/
theorem adopt_eq_self (h : a.Coherent) {d : Decision} (counted : d.stamp.number ≤ a.latest)
    (known : ∀ e ∈ a.queue.entries, e.id = d.id → e.final = true ∧ e.stamp = d.stamp) :
    a.adopt d = (a, []) := by
  have queue : a.queue.adopt d = (a.queue, []) :=
    HoldBack.adopt_eq_self h.sound h.arranged h.headOpen known
  rw [adopt_eq h.sound, queue, max_eq_left counted]
  rfl

/-- The message gets no answer. -/
def Ignores (a : Agreement) (id : MessageId) : Prop :=
  id.sender = a.self ∨
    a.answers.get? id = none ∧ (a.hasDelivered id = true ∨ after? a.latest = none)

theorem propose_of_ignores {m : Message} (h : a.Ignores m.id) : a.propose m = (a, none) := by
  unfold propose
  rcases h with own | ⟨unanswered, delivered | last⟩
  · rw [if_pos own]
  · simp only [unanswered, delivered, if_true, ite_self]
  · simp only [unanswered, last, ite_self]

theorem ignores_of_propose {m : Message} (h : (a.propose m).2 = none) : a.Ignores m.id := by
  unfold propose at h
  split at h
  · rename_i own
    exact .inl own
  · split at h
    · cases h
    · rename_i unanswered
      split at h
      · rename_i delivered
        exact .inr ⟨unanswered, .inl delivered⟩
      · split at h
        · rename_i last
          exact .inr ⟨unanswered, .inr last⟩
        · cases h

theorem propose_of_answer {m : Message} {x : Proposal} (foreign : m.id.sender ≠ a.self)
    (found : a.answers.get? m.id = some x) : a.propose m = (a, some x) := by
  rw [propose, if_neg foreign]
  simp only [found]

/-- Every answer is about the message. -/
theorem about_of_propose (h : a.Coherent) {m : Message} {x : Proposal}
    (answer : (a.propose m).2 = some x) : x.id = m.id := by
  rcases a.propose_cases m with same | ⟨y, found, same⟩ | ⟨number, -, -, -, -, new⟩
  · rw [same] at answer
    cases answer
  · rw [same] at answer
    cases answer
    exact (h.answer_waits m.id x found).1
  · rw [new] at answer
    cases answer
    rfl

namespace Ignores

variable {id : MessageId}

theorem adopt (h : a.Ignores id) (sound : a.queue.Sound) (d : Decision) :
    (a.adopt d).1.Ignores id := by
  obtain ⟨self, -⟩ := a.adopt_frame d
  rcases h with own | ⟨unanswered, ending⟩
  · left
    rw [self]
    exact own
  · right
    constructor
    · rw [adopt_answers sound, unanswered, ite_self]
    · rcases ending with delivered | last
      · exact .inl (hasDelivered_adopt sound d (.inr delivered))
      · right
        rw [adopt_latest]
        exact after?_max last _

theorem decide? (h : a.Ignores id) (coherent : a.Coherent) (k : MessageId) :
    (a.decide? k).1.Ignores id := by
  rcases a.decide?_cases coherent.self_live k with ⟨same, -⟩ | ⟨b, s, -, -, -, result⟩
  · rw [same]
    exact h
  · rw [result]
    have closed : (a.closed k).Ignores id := h
    exact closed.adopt coherent.sound ⟨k, s⟩

theorem decideAll (h : a.Ignores id) (coherent : a.Coherent) (ids : List MessageId) :
    (a.decideAll ids).1.Ignores id := by
  induction ids generalizing a with
  | nil => exact h
  | cons k rest ih => exact ih (h.decide? coherent k) (coherent.decide? k)

/-- Where there is a next number, only a message that was delivered is ignored for good. -/
theorem delivered_of_next (h : a.Ignores id) (foreign : id.sender ≠ a.self) {number : UInt32}
    (next : after? a.latest = some number) :
    a.answers.get? id = none ∧ a.hasDelivered id = true := by
  obtain ⟨unanswered, ending⟩ := h.resolve_left foreign
  refine ⟨unanswered, ending.resolve_right ?_⟩
  rw [next]
  exact Option.some_ne_none number

theorem change (h : a.Ignores id) (coherent : a.Coherent) (change : Change a a') :
    a'.Ignores id := by
  cases change with
  | same => exact h
  | @drafted m number own created next =>
    have drafted : (a.drafted m number).Ignores id := by
      by_cases self : id.sender = a.self
      · exact .inl self
      · obtain ⟨unanswered, delivered⟩ := h.delivered_of_next self next
        exact .inr ⟨unanswered, .inl delivered⟩
    exact drafted.decide? (coherent.drafted own created next) m.id
  | @answered m number foreign unanswered undelivered next =>
    by_cases self : id.sender = a.self
    · exact .inl self
    · obtain ⟨none, delivered⟩ := h.delivered_of_next self next
      have other : m.id ≠ id := by
        intro same
        rw [same, delivered] at undelivered
        cases undelivered
      have answers : (a.answered m number).answers.get? id = a.answers.get? id :=
        (Table.get?_put _ _ _ _).trans (if_neg other)
      exact .inr ⟨answers.trans none, .inl delivered⟩
  | tallied p =>
    have tallied : (a.tallied p).Ignores id := by
      unfold Agreement.tallied
      split
      · exact h
      · exact h
    exact tallied.decide? (coherent.tallied p) p.id
  | adopted d => exact h.adopt coherent.sound d
  | @removed other foreign =>
    have without : (a.without other).Ignores id := h
    exact without.decideAll (coherent.without foreign) _

end Ignores

end Concord.Agreement
