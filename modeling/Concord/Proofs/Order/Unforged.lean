import Concord.Proofs.Order.Numbering

/-!
What holds as long as nobody speaks in the name of a member. Its own proposal stays in its ballots as
it was made, so what it decides is never below it; a message with a ballot waits for its decision; and
the member decides on each of its messages once.
-/

namespace Concord

/-- The call brings no proposal of this member and no decision on one of its messages: it makes these
itself. -/
def Operation.Unforged (self : MemberId) : Operation → Prop
  | .count p => p.stamp.proposer ≠ self
  | .follow d => d.id.sender ≠ self
  | _ => True

instance (self : MemberId) (operation : Operation) : Decidable (operation.Unforged self) :=
  match operation with
  | .create _ => isTrue trivial
  | .propose _ => isTrue trivial
  | .count p => inferInstanceAs (Decidable (p.stamp.proposer ≠ self))
  | .follow d => inferInstanceAs (Decidable (d.id.sender ≠ self))
  | .remove _ => isTrue trivial

namespace Agreement

variable {a b : Agreement} {assigned : List Proposal} {ruled : List Decision}

/-- Every open ballot holds the own proposal as it was made. -/
def OwnVoted (assigned : List Proposal) (a : Agreement) : Prop :=
  ∀ id c, a.ballots.get? id = some c →
    ∃ number, c.get? a.self = some number ∧ ⟨id, ⟨number, a.self⟩⟩ ∈ assigned

namespace OwnVoted

theorem start (self : MemberId) (members : List MemberId) : OwnVoted [] (.start self members) := by
  intro id c none
  cases none

theorem prepared (h : OwnVoted assigned a) {operation : Operation} {proposal : Option Proposal}
    (unforged : operation.Unforged a.self) (prepares : Preparation a operation proposal b) :
    OwnVoted (assigned ++ proposal.toList) b := by
  have old : ∀ id c, a.ballots.get? id = some c →
      ∃ number, c.get? a.self = some number ∧
        ⟨id, ⟨number, a.self⟩⟩ ∈ assigned ++ proposal.toList := by
    intro id c found
    obtain ⟨number, cast, made⟩ := h id c found
    exact ⟨number, cast, List.mem_append_left _ made⟩
  cases prepares with
  | same => exact old
  | answered => exact old
  | without => exact old
  | @drafted payload created number next_created next =>
    intro id c found
    rw [get?_drafted] at found
    split at found
    · rename_i here
      cases found
      refine ⟨number, (Table.get?_put _ _ _ _).trans (if_pos rfl), ?_⟩
      exact List.mem_append_right _ (List.mem_singleton.mpr (here ▸ rfl))
    · exact old id c found
  | tallied p =>
    intro id c found
    rw [(a.tallied_frame p).1]
    rw [get?_tallied] at found
    split at found
    · obtain ⟨c, open_, rfl⟩ := Option.map_eq_some_iff.mp found
      obtain ⟨number, cast, made⟩ := old id c open_
      refine ⟨number, ?_, made⟩
      exact (Table.get?_put _ _ _ _).trans ((if_neg unforged).trans cast)
    · exact old id c found

theorem perform (h : OwnVoted assigned a) {operation : Operation}
    (unforged : operation.Unforged a.self) :
    OwnVoted (assigned ++ (a.assigns? operation).toList) (a.perform operation) := by
  have prepares := a.preparation operation
  have self := (a.change_perform operation).self.trans prepares.self.symm
  obtain ⟨-, -, ballots⟩ := a.perform_frame operation
  intro id c found
  rw [self]
  rw [ballots] at found
  split at found
  · cases found
  · exact h.prepared unforged prepares id c found

theorem run (h : OwnVoted assigned a) {operations : List Operation}
    (unforged : ∀ operation ∈ operations, operation.Unforged a.self) :
    OwnVoted (assigned ++ a.assignments operations) (a.run operations) := by
  induction operations generalizing a assigned with
  | nil => simpa [assignments, Agreement.run] using h
  | cons operation rest ih =>
    obtain ⟨here, later⟩ := List.forall_mem_cons.mp unforged
    rw [← (a.change_perform operation).self] at later
    have rested := ih (h.perform here) later
    simpa [assignments, Agreement.run] using rested

end OwnVoted

/-- A decision of this member is no less than its own proposal for the message. -/
theorem Numbered.le_due (h : Numbered assigned ruled a) (voted : OwnVoted assigned a)
    {d : Decision} (due : a.due? d.id = some d) {x : Proposal} (made : x ∈ assigned)
    (about : x.id = d.id) : x.stamp.number ≤ d.stamp.number := by
  obtain ⟨-, c, found, -, won⟩ := due?_eq_some_iff.mp due
  obtain ⟨number, cast, own⟩ := voted d.id c found
  obtain rfl : x = ⟨d.id, ⟨number, a.self⟩⟩ := List.inj_on_of_nodup_map h.distinct made own about
  exact Ballot.le_winner won cast

/-- A message with an open ballot waits for its decision. -/
def OwnOpen (a : Agreement) : Prop :=
  ∀ id c, a.ballots.get? id = some c → ∃ e ∈ a.queue.entries, e.id = id ∧ e.final = false

namespace OwnOpen

theorem start (self : MemberId) (members : List MemberId) : OwnOpen (.start self members) := by
  intro id c none
  cases none

theorem prepared (h : OwnOpen a) (coherent : a.Coherent) {operation : Operation}
    {proposal : Option Proposal} (prepares : Preparation a operation proposal b) : OwnOpen b := by
  have grown {m : Message} (s : Stamp) (absent : m.id ∉ a.queue.waiting) {id : MessageId}
      (waits : ∃ e ∈ a.queue.entries, e.id = id ∧ e.final = false) :
      ∃ e ∈ (a.queue.add m s).1.entries, e.id = id ∧ e.final = false := by
    obtain ⟨e, he, about, provisional⟩ := waits
    rw [HoldBack.add_eq s absent]
    exact ⟨e, List.mem_append_left _ he, about, provisional⟩
  cases prepares with
  | same => exact h
  | without => exact h
  | answered foreign unanswered _ _ =>
    have absent := coherent.absent_answered foreign unanswered
    exact fun id c found => grown _ absent (h id c found)
  | @drafted payload created number next_created next =>
    have absent : (⟨a.self, created⟩ : MessageId) ∉ a.queue.waiting :=
      coherent.absent_drafted (m := ⟨⟨a.self, created⟩, payload⟩) rfl next_created
    intro id c found
    rw [get?_drafted] at found
    split at found
    · rename_i here
      refine ⟨⟨⟨⟨a.self, created⟩, payload⟩, ⟨number, a.self⟩, false⟩, ?_, here, rfl⟩
      change _ ∈ (a.queue.add _ _).1.entries
      rw [HoldBack.add_eq _ absent]
      exact List.mem_append_right _ List.mem_cons_self
    · exact grown (m := ⟨⟨a.self, created⟩, payload⟩) _ absent (h id c found)
  | tallied p =>
    intro id c found
    rw [tallied_with]
    rw [get?_tallied] at found
    split at found
    · obtain ⟨c, open_, -⟩ := Option.map_eq_some_iff.mp found
      exact h id c open_
    · exact h id c found

/-- A decision on a message without a ballot leaves the messages alone that have one. -/
theorem adopt (h : OwnOpen a) (sound : a.queue.Sound) {d : Decision}
    (closed : a.ballots.get? d.id = none) : OwnOpen (a.adopt d).1 := by
  obtain ⟨-, -, -, ballots⟩ := a.adopt_frame d
  intro id c found
  rw [ballots] at found
  obtain ⟨e, he, about, provisional⟩ := h id c found
  have other : e.id ≠ d.id := by
    intro same
    cases closed.symm.trans (same ▸ about ▸ found)
  rw [adopt_queue sound]
  refine ⟨e, (HoldBack.kept_or_released sound d he other).resolve_right ?_, about, provisional⟩
  rintro ⟨final, -⟩
  cases provisional.symm.trans final

theorem adoptAll (h : OwnOpen a) (coherent : a.Coherent) {ds : List Decision}
    (closed : ∀ d ∈ ds, a.ballots.get? d.id = none) : OwnOpen (a.adoptAll ds).1 := by
  induction ds generalizing a with
  | nil => exact h
  | cons d rest ih =>
    obtain ⟨here, later⟩ := List.forall_mem_cons.mp closed
    obtain ⟨-, -, -, ballots⟩ := a.adopt_frame d
    rw [← ballots] at later
    exact ih (h.adopt coherent.sound here) (coherent.adopt d) later

theorem perform (h : OwnOpen a) (coherent : a.Coherent) {operation : Operation}
    (unforged : operation.Unforged a.self) : OwnOpen (a.perform operation) := by
  have prepares := a.preparation operation
  have ready : OwnOpen (a.ready operation) := by
    intro id c found
    rw [Agreement.ready, get?_closeAll] at found
    rw [Agreement.ready, closeAll_eq]
    split at found
    · cases found
    · exact h.prepared coherent prepares id c found
  rw [(a.perform_eq operation).1]
  refine ready.adoptAll (coherent.ready operation) fun d hd => ?_
  rcases due_of_mem_rules hd with rfl | ⟨taken, -⟩
  · cases found : (a.ready (.follow d)).ballots.get? d.id with
    | none => rfl
    | some c => exact absurd (coherent.ballot_own d.id c found).1 unforged
  · rw [Agreement.ready, get?_closeAll, if_pos (List.mem_map_of_mem taken)]

theorem run (h : OwnOpen a) (coherent : a.Coherent) {operations : List Operation}
    (unforged : ∀ operation ∈ operations, operation.Unforged a.self) :
    OwnOpen (a.run operations) := by
  induction operations generalizing a with
  | nil => exact h
  | cons operation rest ih =>
    obtain ⟨here, later⟩ := List.forall_mem_cons.mp unforged
    have change := a.change_perform operation
    rw [← change.self] at later
    exact ih (h.perform coherent here) (coherent.change change) later

end OwnOpen

/-- The decisions on own messages among those that were adopted: none can be taken again. -/
structure OwnOnce (ruled : List Decision) (a : Agreement) : Prop where
  closed : ∀ d ∈ ruled, d.id.sender = a.self →
    a.ballots.get? d.id = none ∧ d.id.number ≤ a.created
  once : ∀ d ∈ ruled, ∀ e ∈ ruled, d.id.sender = a.self → d.id = e.id → d = e

namespace OwnOnce

theorem start (self : MemberId) (members : List MemberId) : OwnOnce [] (.start self members) where
  closed _ hd := by cases hd
  once _ hd := by cases hd

theorem perform (h : OwnOnce ruled a) (coherent : a.Coherent) {operation : Operation}
    (unforged : operation.Unforged a.self) :
    OwnOnce (ruled ++ a.rules operation) (a.perform operation) := by
  have prepares := a.preparation operation
  obtain ⟨-, created, ballots⟩ := a.perform_frame operation
  have self := (a.change_perform operation).self
  have own : ∀ d ∈ a.rules operation, d.id.sender = a.self →
      d ∈ (a.decides operation).map Settlement.decision ∧
        (a.prepared operation).due? d.id = some d := by
    intro d hd place
    refine (due_of_mem_rules hd).resolve_left ?_
    rintro rfl
    exact unforged place
  -- what was decided before has no ballot that could call for a decision now
  have apart : ∀ d ∈ ruled, ∀ e ∈ a.rules operation, d.id.sender = a.self → d.id ≠ e.id := by
    intro d hd e he place same
    obtain ⟨gone, old⟩ := h.closed d hd place
    obtain ⟨-, c, found, -⟩ := due?_eq_some_iff.mp (own e he (same ▸ place)).2
    cases (prepares.stays_closed gone old).symm.trans (same ▸ found)
  constructor
  case closed =>
    rw [self]
    intro d hd place
    rw [ballots]
    rcases List.mem_append.mp hd with old | new
    · obtain ⟨gone, le⟩ := h.closed d old place
      refine ⟨?_, UInt32.le_trans le (a.change_perform operation).created_le⟩
      rw [prepares.stays_closed gone le, ite_self]
    · obtain ⟨taken, due⟩ := own d new place
      obtain ⟨-, c, found, -⟩ := due?_eq_some_iff.mp due
      refine ⟨if_pos ?_, created ▸ ((coherent.prepared prepares).ballot_own _ c found).2.2⟩
      obtain ⟨t, ht, rfl⟩ := List.mem_map.mp taken
      exact List.mem_map_of_mem ht
  case once =>
    rw [self]
    intro d hd e he place same
    rcases List.mem_append.mp hd with old | new <;> rcases List.mem_append.mp he with old' | new'
    · exact h.once d old e old' place same
    · exact absurd same (apart d old e new' place)
    · exact absurd same.symm (apart e old' d new (same ▸ place))
    · have distinct : (((a.decides operation).map Settlement.decision).map Decision.id).Nodup := by
        rw [List.map_map]
        exact decides_distinct coherent operation
      exact List.inj_on_of_nodup_map distinct (own d new place).1 (own e new' (same ▸ place)).1 same

theorem run (h : OwnOnce ruled a) (coherent : a.Coherent) {operations : List Operation}
    (unforged : ∀ operation ∈ operations, operation.Unforged a.self) :
    OwnOnce (ruled ++ a.rulings operations) (a.run operations) := by
  induction operations generalizing a ruled with
  | nil => simpa [rulings, Agreement.run] using h
  | cons operation rest ih =>
    obtain ⟨here, later⟩ := List.forall_mem_cons.mp unforged
    have change := a.change_perform operation
    rw [← change.self] at later
    have rested := ih (h.perform coherent here) (coherent.change change) later
    simpa [rulings, Agreement.run] using rested

end OwnOnce

/-- A decision on the message of another member was given to a call. -/
theorem follow_of_mem_rulings (coherent : a.Coherent) {operations : List Operation} {d : Decision}
    (adopted : d ∈ a.rulings operations) (foreign : d.id.sender ≠ a.self) :
    .follow d ∈ operations := by
  induction operations generalizing a with
  | nil => cases adopted
  | cons operation rest ih =>
    have change := a.change_perform operation
    rcases List.mem_append.mp adopted with now | later
    · rcases due_of_mem_rules now with rfl | ⟨-, due⟩
      · exact List.mem_cons_self
      · have prepares := a.preparation operation
        obtain ⟨-, c, found, -⟩ := due?_eq_some_iff.mp due
        have own := ((coherent.prepared prepares).ballot_own _ c found).1
        exact absurd (own.trans prepares.self) foreign
    · exact List.mem_cons_of_mem _ (ih (coherent.change change) later (change.self ▸ foreign))

end Agreement

end Concord
