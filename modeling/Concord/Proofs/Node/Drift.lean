import Concord.Proofs.Node.Alignment

/-!
A member never loses track of a proposal, however its calls are interleaved: no ballot waits for a
proposal that nobody will ask for again, and nothing waits for a member that was removed.
-/

namespace Concord.Desk

/-- Who is missing from an open ballot is still sent the message or has its proposal between the
halves. -/
theorem Aligned.missing_iff {d : Desk} (h : d.Aligned)
    (calm : d.duty.message? = none ∧ d.duty.forgetting? = none) {id : MessageId} {b : Ballot}
    (open_ : d.node.agreement.ballots.get? id = some b) (r : MemberId) :
    r ∈ d.node.agreement.live ∧ b.get? r = none ↔
      (∃ l, d.node.messages.remaining? id = some l ∧ r ∈ l) ∨
        r ∈ d.node.agreement.live ∧ ∃ x ∈ d.halves, x.id = id ∧ x.stamp.proposer = r := by
  have lacks : r ∈ d.node.agreement.live ∧ b.get? r = none ↔ d.node.agreement.Lacks id r := by
    unfold Agreement.Lacks
    simp only [open_, Option.some.injEq, exists_eq_left']
  rw [lacks, h.lacks, Outbox.mem_remaining_iff h.sound]
  constructor
  · rintro ⟨present, owed | half | ⟨m, put, -⟩⟩
    · exact .inl owed
    · exact .inr ⟨present, half⟩
    · rw [calm.1] at put
      cases put
  · rintro (⟨m, owes, about⟩ | ⟨present, half⟩)
    · exact ⟨h.owed_present calm.2 owes, .inl ⟨m, owes, about⟩⟩
    · exact ⟨present, .inr (.inl half)⟩

/-- A message without an open ballot is not sent. -/
theorem Aligned.not_inFlight {d : Desk} (h : d.Aligned) (calm : d.duty.forgetting? = none)
    {id : MessageId} (closed : d.node.agreement.ballots.get? id = none) :
    id ∉ d.node.messages.inFlight := by
  intro listed
  obtain ⟨m, r, about, owes⟩ := h.sound.mem_inFlight.mp listed
  have present := h.owed_present calm owes
  obtain ⟨-, b, open_, -⟩ := (h.lacks id r).mpr ⟨present, .inl ⟨m, owes, about⟩⟩
  cases closed.symm.trans open_

/-- However the calls of a member are interleaved, while none is halfway through a multicast or a
removal: whoever is missing from a ballot is still sent the message or has its proposal between the
halves, and someone is missing; a message that is decided is sent to nobody; and nobody but live
members is sent anything, so a member that was removed never again. -/
theorem no_drift {settings : Settings} {g : Group} {n : Node}
    (started : Node.start settings g = .ok n) {turns : List Turn} {d : Desk}
    (run : d = (Desk.start n).run turns) {rest : List Settlement} (calm : d.duty = .publish rest) :
    (∀ id b, d.node.agreement.ballots.get? id = some b →
      (∀ r, r ∈ d.node.agreement.live ∧ b.get? r = none ↔
        (∃ l, d.node.messages.remaining? id = some l ∧ r ∈ l) ∨
          r ∈ d.node.agreement.live ∧ ∃ x ∈ d.halves, x.id = id ∧ x.stamp.proposer = r) ∧
      ∃ r ∈ d.node.agreement.live, b.get? r = none) ∧
    (∀ id, d.node.agreement.ballots.get? id = none → id ∉ d.node.messages.inFlight) ∧
    ((∀ x ∈ d.node.messages.parcels, ∀ r ∈ x.waiting, r ∈ d.node.agreement.live) ∧
      ∀ x ∈ d.node.decisions.parcels, ∀ r ∈ x.waiting, r ∈ d.node.agreement.live) ∧
    ∀ before other after, turns = before ++ .remove other :: after →
      ((Desk.start n).run before).duty = .free → other ≠ n.self →
        other ∉ d.node.agreement.live := by
  have fresh := Node.start_eq_ok started
  have self : n.agreement.self = n.self := by
    rw [fresh]
    rfl
  obtain ⟨aligned, coherent, stalled⟩ : d.Aligned ∧ d.node.agreement.Coherent ∧ d.node.Stalled := by
    rw [run, fresh]
    exact aligned_run turns (.start g _) (.start _ _) fun id b none => by cases none
  have quiet : d.duty.message? = none ∧ d.duty.forgetting? = none ∧ d.duty.leaving? = none := by
    rw [calm]
    exact ⟨rfl, rfl, rfl⟩
  refine ⟨?_, fun id closed => aligned.not_inFlight quiet.2.1 closed, ⟨?_, ?_⟩, ?_⟩
  · intro id b open_
    exact ⟨aligned.missing_iff ⟨quiet.1, quiet.2.1⟩ open_, stalled id b open_⟩
  · exact fun x hx r waits => aligned.owed_present quiet.2.1 ⟨x, hx, rfl, waits⟩
  · exact fun x hx r waits => aligned.announced_present quiet.2.2 ⟨x, hx, rfl, waits⟩
  · intro before other after split free foreign present
    rw [run, split, run_append] at present
    have removed : other ∈ (((Desk.start n).run before).turn (.remove other)).node.agreement.live :=
      live_run after present
    simp only [turn, free, Duty.isFree_iff, if_true] at removed
    rcases (Agreement.mem_live_remove.mp removed).2 with kept | own
    · exact kept rfl
    · rw [self_run] at own
      exact foreign (own.trans self)

/-- The proposal of the second member is between its halves while the third one is removed: nothing
is sent any more, but the ballot still lacks the second one. -/
theorem no_drift_between_halves :
    let g : Group := ⟨⟨1⟩, Group.onLoopback 3⟩
    let n : Node := ⟨g, .ofSettings .standard, .start g.self g.ids, .empty, .empty⟩
    let x : Proposal := ⟨⟨⟨1⟩, 1⟩, ⟨1, ⟨2⟩⟩⟩
    let d := (Desk.start n).run
      [.multicast 7, .work, .receive (.proposal x), .remove ⟨3⟩, .work, .work]
    Node.start .standard g = .ok n ∧ d.duty = .free ∧ d.node.messages.inFlight = [] ∧
      d.halves = [x] ∧ ⟨3⟩ ∉ d.node.agreement.live ∧ d.node.agreement.Lacks x.id ⟨2⟩ := by
  intro g n x d
  have started : Node.start .standard g = .ok n := rfl
  have free : d.duty = .free := Duty.isFree_iff.mp (by decide +kernel)
  have between : d.halves = [x] := by decide +kernel
  have live : ⟨2⟩ ∈ d.node.agreement.live := by decide +kernel
  have run : d = (Desk.start n).run
      [.multicast 7, .work, .receive (.proposal x), .remove ⟨3⟩, .work, .work] := rfl
  have aligned := no_drift started run free
  obtain ⟨b, open_⟩ : ∃ b, d.node.agreement.ballots.get? x.id = some b :=
    Option.isSome_iff_exists.mp (by decide +kernel)
  have lacked := ((aligned.1 x.id b open_).1 ⟨2⟩).mpr
    (.inr ⟨live, x, between ▸ List.mem_cons_self, rfl, rfl⟩)
  have removed := aligned.2.2.2 [.multicast 7, .work, .receive (.proposal x)] ⟨3⟩ [.work, .work] rfl
    (Duty.isFree_iff.mp (by decide +kernel)) (by decide)
  exact ⟨started, free, by decide +kernel, between, removed, live, b, open_, lacked.2⟩

end Concord.Desk
