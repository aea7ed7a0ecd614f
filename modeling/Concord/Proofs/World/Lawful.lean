import Concord.Proofs.Record.Codec
import Concord.Proofs.World.Moves

/-!
The invariant of a cluster: the history keeps to the rules, every member is where the history says,
and every datagram that was ever sent tells its recipient the truth.
-/

namespace Concord

theorem Record.Meant.mono {H K : List Event} {target : MemberId} {r : Record}
    (meant : r.Meant H target) (grows : ∀ e ∈ H, e ∈ K) : r.Meant K target := by
  cases r with
  | message m => exact grows _ meant
  | proposal x => exact grows _ meant
  | decision d =>
    obtain ⟨l, decided, listed⟩ := meant
    exact ⟨l, grows _ decided, listed⟩
  | receipt r =>
    obtain ⟨s, learned⟩ := meant
    exact ⟨s, grows _ learned⟩
  | marker sender => exact meant

/-- A datagram holds a record that is true for the member at its target. -/
def Datagram.Genuine (roster : Roster) (H : List Event) (g : Datagram) : Prop :=
  ∃ target r, roster.addressOf target = some g.target ∧ g.bytes = Record.encode r ∧
    r.Meant H target

/-- A record that is not accepted changes nothing; otherwise it is handled. -/
theorem Node.mem_replies {n : Node} {reaction : Reaction} {g : Datagram}
    (hg : g ∈ n.replies reaction) : ∃ target r, reaction.reply = some (target, r) ∧
      n.group.addressOf target = some g.target ∧ g.bytes = Record.encode r := by
  unfold replies at hg
  split at hg
  · cases hg
  · rename_i target r reply
    unfold letter? at hg
    split at hg
    · rename_i own other _ there
      rw [Option.mem_toList, Option.some.injEq] at hg
      subst hg
      exact ⟨target, r, reply, there, rfl⟩
    · cases hg

namespace World

theorem change_self (w : World) (p : MemberId) : w.change p (w.node p) [] [] [] = w := by
  simp [change, Function.update_eq_self]

/-- A datagram with an accepted record is handled; any other has no effect. -/
theorem handOver_eq {w : World} (p : MemberId) {g : Datagram} {r : Record}
    (holds : Record.decode g.bytes = .ok r) (draws : Draws) : w.handOver p g draws =
      if (w.node p).accepts draws g.source r then
        w.change p ((w.node p).handle r).1 ((w.node p).handle r).2.delivered
          ((w.node p).handleEvents r) ((w.node p).replies ((w.node p).handle r).2)
      else w := by
  rw [handOver]
  simp only [holds, receive]
  rcases (w.node p).receive_cases draws g.source r with
    ⟨refused, node, reaction⟩ | ⟨accepted, node, reaction⟩
  · simp only [refused, node, reaction, Bool.false_eq_true, if_false]
    exact w.change_self p
  · simp only [accepted, node, reaction, if_true]

structure Lawful (roster : Roster) (w : World) : Prop where
  ledger : Ledger roster w.history
  seat : ∀ p ∈ roster.ids, Seat roster w.history p (w.log p) (w.node p)
  stalled : ∀ p ∈ roster.ids, (w.node p).Stalled
  genuine : ∀ g ∈ w.sent, g.Genuine roster w.history

namespace Lawful

variable {roster : Roster} {w : World} {p : MemberId}

/-- A lawful step of one member leaves the others as they are. -/
theorem change (h : w.Lawful roster) (member : p ∈ roster.ids) {n : Node}
    {delivered : List Message} {events : List Event} {mail : List Datagram}
    (advance : Advance roster w.history events p (w.log p ++ delivered) n) (stalled : n.Stalled)
    (genuine : ∀ g ∈ mail, g.Genuine roster (w.history ++ events)) :
    (w.change p n delivered events mail).Lawful roster where
  ledger := advance.ledger
  seat q hq := by
    by_cases here : q = p
    · subst here
      simp only [World.change, Function.update_self]
      exact advance.seat
    · simp only [World.change, Function.update_of_ne here]
      refine (h.seat q hq).mono (fun e he => List.mem_append_left _ he) fun e he place => ?_
      rcases List.mem_append.mp he with old | new
      · exact old
      · exact absurd (place.symm.trans (advance.own e new)) here
  stalled q hq := by
    by_cases here : q = p
    · subst here
      simp only [World.change, Function.update_self]
      exact stalled
    · simp only [World.change, Function.update_of_ne here]
      exact h.stalled q hq
  genuine g hg := by
    rcases List.mem_append.mp hg with old | new
    · obtain ⟨target, r, there, bytes, meant⟩ := h.genuine g old
      exact ⟨target, r, there, bytes, meant.mono fun e he => List.mem_append_left _ he⟩
    · exact genuine g new

theorem fresh (h : w.Fresh roster) : w.Lawful roster := by
  have start : ∀ p ∈ roster.ids, ∃ faults, w.node p =
      ⟨roster.group p, faults, .start p roster.ids, .empty, .empty⟩ := by
    intro p hp
    obtain ⟨settings, ok⟩ := h.started p hp
    exact ⟨_, Node.start_eq_ok ok⟩
  constructor
  · rw [h.history_empty]
    exact .nil
  · intro p hp
    obtain ⟨faults, fresh⟩ := start p hp
    rw [h.history_empty, h.log_empty, fresh]
    exact .start hp faults
  · intro p hp
    obtain ⟨faults, fresh⟩ := start p hp
    rw [fresh]
    intro id b none
    cases none
  · rw [h.sent_empty]
    intro g hg
    cases hg

theorem multicast (h : w.Lawful roster) (member : p ∈ roster.ids) (payload : UInt32) :
    (w.multicast p payload).Lawful roster := by
  unfold World.multicast
  split
  · exact h
  · rename_i n delivered ok
    have seat := h.seat p member
    refine h.change member (seat.multicast h.ledger ok) ?_ fun g hg => by cases hg
    exact (h.stalled p member).change seat.self_mem_live (Node.change_multicast ok)

theorem remove (h : w.Lawful roster) (member : p ∈ roster.ids) (other : MemberId) :
    (w.remove p other).Lawful roster := by
  have seat := h.seat p member
  refine h.change member (seat.remove h.ledger other) ?_ fun g hg => by cases hg
  exact (h.stalled p member).change seat.self_mem_live ((w.node p).change_remove other)

/-- What an outbox sends is true for whom it is sent to. -/
theorem transmit (h : w.Lawful roster) (member : p ∈ roster.ids) {own target : Address}
    {bytes : Bytes} (due : (target, bytes) ∈ (w.node p).rounds) :
    (w.change p (w.node p) [] [] [⟨own, target, bytes⟩]).Lawful roster := by
  have seat := h.seat p member
  refine h.change member ?_ (h.stalled p member) fun g hg => ?_
  · rw [List.append_nil]
    exact .still h.ledger seat
  · rw [List.mem_singleton.mp hg, List.append_nil]
    rw [Node.rounds, seat.group] at due
    rcases List.mem_append.mp due with first | second
    · obtain ⟨m, r, owes, there, rfl⟩ := Outbox.owes_of_mem_round first
      exact ⟨r, .message m, there, rfl, ((seat.polling.due m r).mp owes).1⟩
    · obtain ⟨d, r, owes, there, rfl⟩ := Outbox.owes_of_mem_round second
      exact ⟨r, .decision d, there, rfl, (seat.publishing.owed d r owes).2.2⟩

/-- What a datagram tells the member at its target is true. -/
theorem meant (h : w.Lawful roster) {g : Datagram} (posted : g ∈ w.sent)
    (here : roster.addressOf p = some g.target) {r : Record}
    (holds : Record.decode g.bytes = .ok r) : r.Meant w.history p := by
  obtain ⟨target, r', there, bytes, meant⟩ := h.genuine g posted
  obtain rfl := Roster.addressOf_injective there here
  rw [bytes, Record.decode_encode] at holds
  cases holds
  exact meant

/-- A member handles every genuine datagram that reaches it, or ignores it. -/
theorem handOver (h : w.Lawful roster) {g : Datagram} (posted : g ∈ w.sent)
    (here : roster.addressOf p = some g.target) (draws : Draws) :
    (w.handOver p g draws).Lawful roster := by
  obtain ⟨target, r, there, bytes, -⟩ := h.genuine g posted
  have holds : Record.decode g.bytes = .ok r := by rw [bytes, Record.decode_encode]
  have meant := h.meant posted here holds
  have member := Roster.mem_ids_of_addressOf here
  have seat := h.seat p member
  rw [handOver_eq p holds]
  split
  · obtain ⟨advance, replied⟩ := seat.handle h.ledger meant
    refine h.change member advance ?_ fun g hg => ?_
    · exact (h.stalled p member).change seat.self_mem_live ((w.node p).change_handle r)
    · obtain ⟨other, answer, reply, there, bytes⟩ := Node.mem_replies hg
      rw [seat.group] at there
      exact ⟨other, answer, there, bytes, replied other answer reply⟩
  · exact h

end Lawful

theorem Reachable.lawful {roster : Roster} {w : World} (h : Reachable roster w) :
    w.Lawful roster := by
  induction h with
  | start fresh => exact .fresh fresh
  | next _ step ih =>
    cases step with
    | multicast member payload => exact ih.multicast member payload
    | remove member other => exact ih.remove member other
    | transmit here due => exact ih.transmit (Roster.mem_ids_of_addressOf here) due
    | handOver posted here draws => exact ih.handOver posted here draws

end World

end Concord
