import Concord.Proofs.World.TotalOrder

/-!
Decisions and messages are repeated until they are acknowledged, so an acknowledgement must never
come too early. A decision cannot reach a member before the message it is about, and a group of
members with nothing left to send has delivered everything.
-/

namespace Concord.World

/-- A decision can still reach a member: an outbox holds it, or a datagram with it was sent. -/
def Heading (roster : Roster) (w : World) (p : MemberId) (d : Decision) : Prop :=
  (∃ q ∈ roster.ids, (w.node q).decisions.Owes d p) ∨
    ∃ g ∈ w.sent, roster.addressOf p = some g.target ∧ Record.decode g.bytes = .ok (.decision d)

theorem Lawful.decided_of_heading {roster : Roster} {w : World} (h : w.Lawful roster) {p : MemberId}
    {d : Decision} (heading : w.Heading roster p d) : ∃ l, .decided d l ∈ w.history ∧ p ∈ l := by
  rcases heading with ⟨q, hq, owes⟩ | ⟨g, hg, here, decoded⟩
  · exact ((h.seat q hq).publishing.owed d p owes).2.2
  · exact h.meant hg here decoded

/-- Whoever a decision is heading for has proposed for its message, no more than was decided, and
the message waits there or was delivered. A receipt for a message that does not wait loses nothing:
it was delivered. -/
theorem decision_not_early {roster : Roster} {w : World} (reachable : w.Reachable roster)
    {p : MemberId} {d : Decision} (heading : w.Heading roster p d) :
    (∃ k, .proposed ⟨d.id, ⟨k, p⟩⟩ ∈ w.history ∧ k ≤ d.stamp.number) ∧
    (∃ m, .sent m ∈ w.history ∧ m.id = d.id ∧
      ((∃ e ∈ (w.node p).agreement.queue.entries, e.message = m) ∨ m ∈ w.log p)) ∧
    (∀ e ∈ (w.node p).agreement.queue.entries, e.id = d.id → e.final = false →
      e.stamp.number ≤ d.stamp.number) ∧
    (d.stamp.proposer ∈ roster.ids ∧ .proposed ⟨d.id, d.stamp⟩ ∈ w.history) ∧
    (d.id ∉ (w.node p).agreement.queue.waiting → d.id ∈ (w.log p).map Message.id) := by
  have h := reachable.lawful
  obtain ⟨l, decided, listed⟩ := h.decided_of_heading heading
  obtain ⟨k, proposed, le⟩ := h.ledger.decided_above d l decided p listed
  have winner := h.ledger.decided_proposed d l decided
  have seat := h.seat p (h.ledger.placed _ proposed)
  have placed := seat.orderly.placed h.ledger decided listed
  refine ⟨⟨k, proposed, le⟩, ?_, ?_, ⟨h.ledger.placed _ winner, winner⟩, placed.resolve_left⟩
  · rcases placed with waits | delivered
    · obtain ⟨e, he, about⟩ := seat.orderly.sound.mem_waiting.mp waits
      exact ⟨e.message, seat.orderly.entry_sent e he, about, .inl ⟨e, he, rfl⟩⟩
    · obtain ⟨m, hm, about⟩ := List.mem_map.mp delivered
      exact ⟨m, seat.orderly.log_sent m hm, about, .inr hm⟩
  · intro e he about provisional
    exact seat.orderly.open_le h.ledger decided listed he about provisional

/-- The decision on its way to the member at the second place, which still holds the message. -/
theorem decision_not_early_on_the_way :
    let w := pair.run .pair [.multicast ⟨1⟩ 7, .transmit ⟨1⟩ 0, .handOver 0 (.ofList []),
      .handOver 1 (.ofList []), .transmit ⟨1⟩ 0]
    let d : Decision := ⟨⟨⟨1⟩, 1⟩, ⟨1, ⟨1⟩⟩⟩
    w.Heading .pair ⟨2⟩ d ∧ ∃ k, .proposed ⟨d.id, ⟨k, ⟨2⟩⟩⟩ ∈ w.history ∧ k ≤ d.stamp.number := by
  intro w d
  have heading : w.Heading .pair ⟨2⟩ d :=
    .inr ⟨⟨.loopback 1, .loopback 2, Record.encode (.decision d)⟩, by decide +kernel, by decide,
      Record.decode_encode _⟩
  exact ⟨heading, (decision_not_early (reachable_pair _) heading).1⟩

/-- Members that have not removed each other and have nothing left to send, while no other member
has ever sent anything. -/
structure Quiet (roster : Roster) (w : World) (S : Set MemberId) : Prop where
  members : ∀ p ∈ S, p ∈ roster.ids
  kept : ∀ p ∈ S, ∀ q ∈ S, ¬ w.HasRemoved p q
  senders : ∀ m, .sent m ∈ w.history → m.id.sender ∈ S
  idle : ∀ p ∈ S, (w.node p).messages.inFlight = [] ∧ (w.node p).decisions.inFlight = []

namespace Lawful

variable {roster : Roster} {w : World} {S : Set MemberId} {p : MemberId}

theorem no_ballot (h : w.Lawful roster) (quiet : w.Quiet roster S) (hp : p ∈ S) (id : MessageId) :
    (w.node p).agreement.ballots.get? id = none := by
  have member := quiet.members p hp
  have seat := h.seat p member
  apply Option.eq_none_iff_forall_ne_some.mpr
  intro b found
  -- the ballot waits for someone who still has to be sent the message
  obtain ⟨r, live, absent⟩ := h.stalled p member id b found
  obtain ⟨m, sent, rfl⟩ := seat.polling.ballot_sent id b found
  have owes := (seat.polling.due m r).mpr ⟨sent, live, b, found, absent⟩
  exact Outbox.not_owes_of_parcels_eq_nil (List.map_eq_nil_iff.mp (quiet.idle p hp).1) m r owes

theorem learned_of_sent (h : w.Lawful roster) (quiet : w.Quiet roster S) (hp : p ∈ S) {m : Message}
    (sent : .sent m ∈ w.history) : ∃ s, .learned p ⟨m.id, s⟩ ∈ w.history := by
  have sender := quiet.senders m sent
  have seat := h.seat _ (quiet.members _ sender)
  rcases seat.polling.polled m sent seat.self.symm with ⟨b, found⟩ | ⟨d, l, decided, about⟩
  · rw [h.no_ballot quiet sender] at found
    cases found
  · have live : p ∈ (w.node m.id.sender).agreement.live := by
      refine (seat.live p).mpr ⟨quiet.members p hp, ?_⟩
      by_cases here : p = m.id.sender
      · exact .inl here
      · exact .inr fun removed => quiet.kept _ sender p hp ⟨here, removed⟩
    have nothing := Outbox.not_owes_of_parcels_eq_nil
      (List.map_eq_nil_iff.mp (quiet.idle _ sender).2) d p
    have owner : d.id.sender = m.id.sender := congrArg MessageId.sender about
    obtain ⟨-, owes | learned⟩ := seat.publishing.audience d l p decided owner live
    · exact absurd owes nothing
    · exact ⟨d.stamp, about ▸ learned⟩

theorem no_entry (h : w.Lawful roster) (quiet : w.Quiet roster S) (hp : p ∈ S) :
    (w.node p).agreement.queue.entries = [] := by
  have seat := h.seat p (quiet.members p hp)
  by_contra some
  -- the queue waits for an open entry, but all its messages are decided
  obtain ⟨e, he, provisional⟩ := seat.blocked some
  obtain ⟨s, learned⟩ := h.learned_of_sent quiet hp (seat.orderly.entry_sent e he)
  rcases seat.orderly.learned_placed _ learned with ⟨x, hx, about, final⟩ | delivered
  · obtain rfl := seat.orderly.sound.eq_of_id_eq hx he about
    rw [provisional] at final
    cases final
  · obtain ⟨m, hm, about⟩ := List.mem_map.mp delivered
    exact seat.orderly.apart m hm (seat.orderly.sound.mem_waiting.mpr ⟨e, he, about.symm⟩)

theorem mem_log_iff (h : w.Lawful roster) (quiet : w.Quiet roster S) (hp : p ∈ S) (m : Message) :
    m ∈ w.log p ↔ .sent m ∈ w.history := by
  have seat := h.seat p (quiet.members p hp)
  refine ⟨seat.orderly.log_sent m, fun sent => ?_⟩
  obtain ⟨s, learned⟩ := h.learned_of_sent quiet hp sent
  rcases seat.orderly.learned_placed _ learned with ⟨e, he, -⟩ | delivered
  · rw [h.no_entry quiet hp] at he
    cases he
  · obtain ⟨k, hk, about⟩ := List.mem_map.mp delivered
    exact h.ledger.sent_once k m (seat.orderly.log_sent k hk) sent about ▸ hk

end Lawful

/-- A quiet group is done: every message was delivered by every member, once and in one order, and
nothing about it is kept. -/
theorem nothing_lost {roster : Roster} {w : World} (reachable : w.Reachable roster)
    {S : Set MemberId} (quiet : w.Quiet roster S) {p : MemberId} (hp : p ∈ S) :
    (∀ m, m ∈ w.log p ↔ .sent m ∈ w.history) ∧
    ((w.log p).map Message.id).Nodup ∧
    (∀ q ∈ S, w.log q = w.log p) ∧
    ((w.node p).agreement.queue.entries = [] ∧ (w.node p).agreement.queue.waiting = []) ∧
    (w.node p).agreement.ballots.entries = [] ∧
    (w.node p).agreement.answers.entries = [] := by
  have h := reachable.lawful
  have member := quiet.members p hp
  have seat := h.seat p member
  have empty := h.no_entry quiet hp
  have noWaiting : ∀ id, id ∉ (w.node p).agreement.queue.waiting := by
    intro id waits
    obtain ⟨e, he, -⟩ := seat.orderly.sound.mem_waiting.mp waits
    rw [empty] at he
    cases he
  refine ⟨h.mem_log_iff quiet hp, h.log_ids_nodup member, fun q hq => ?_,
    ⟨empty, List.eq_nil_iff_forall_not_mem.mpr noWaiting⟩,
    Table.entries_eq_nil (h.no_ballot quiet hp), Table.entries_eq_nil fun id => ?_⟩
  · have memberQ := quiet.members q hq
    have same : (w.log q).Perm (w.log p) := by
      refine (List.perm_ext_iff_of_nodup (h.log_ids_nodup memberQ).of_map
        (h.log_ids_nodup member).of_map).mpr fun m => ?_
      rw [h.mem_log_iff quiet hq, h.mem_log_iff quiet hp]
    exact same.eq_of_pairwise
      (fun m k _ _ order reverse => absurd reverse (h.ledger.precedes_asymm order))
      (h.seat q memberQ).orderly.log_sorted seat.orderly.log_sorted
  · apply Option.eq_none_iff_forall_ne_some.mpr
    intro x found
    exact noWaiting id (seat.answering.genuine id x found).2.2.2

/-- Both members after one message went through. -/
theorem nothing_lost_of_pair :
    let w := pair.run .pair [.multicast ⟨1⟩ 7, .transmit ⟨1⟩ 0, .handOver 0 (.ofList []),
      .handOver 1 (.ofList []), .transmit ⟨1⟩ 0, .handOver 2 (.ofList []), .handOver 3 (.ofList [])]
    w.Quiet .pair {p | p = ⟨1⟩ ∨ p = ⟨2⟩} ∧ w.log ⟨1⟩ = [⟨⟨⟨1⟩, 1⟩, 7⟩] ∧ w.log ⟨2⟩ = w.log ⟨1⟩ := by
  intro w
  have quiet : w.Quiet .pair {p | p = ⟨1⟩ ∨ p = ⟨2⟩} := by
    refine ⟨?_, ?_, fun m sent => ?_, ?_⟩
    · rintro p (rfl | rfl) <;> decide
    · rintro p (rfl | rfl) q (rfl | rfl) <;> decide +kernel
    · have places : ∀ e ∈ w.history, e.place = ⟨1⟩ ∨ e.place = ⟨2⟩ := by decide +kernel
      exact places _ sent
    · rintro p (rfl | rfl) <;> decide +kernel
  have done := nothing_lost (reachable_pair _) quiet (.inl rfl)
  exact ⟨quiet, by decide +kernel, done.2.2.1 ⟨2⟩ (.inr rfl)⟩

end Concord.World
