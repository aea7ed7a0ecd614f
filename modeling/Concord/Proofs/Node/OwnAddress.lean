import Concord.Proofs.Node.Outgoing
import Concord.Proofs.Order.Repetition
import Concord.Proofs.Record.Codec
import Concord.Proofs.World.Roster

/-!
What comes back to a member from its own address. Its messages are turned away where they arrive, and
its proposals and receipts are for nobody it waits for. Only a decision is not turned away: it is
followed as if another member had sent it.
-/

namespace Concord

/-- The decision tells nothing new: its number counts already, and if its message waits, it waits
with this final stamp. -/
def Agreement.Knows (a : Agreement) (e : Decision) : Prop :=
  e.stamp.number ≤ a.latest ∧
    ∀ x ∈ a.queue.entries, x.id = e.id → x.final = true ∧ x.stamp = e.stamp

namespace Desk

variable {g : Group} {d : Desk}

/-- Whatever the record says, if it comes from the member itself, it takes nothing off the
outboxes. -/
theorem Regular.handle_own (h : d.Regular g) {r : Record}
    (admitted : d.node.admits g.self r = true) :
    (d.node.handle r).1.messages = d.node.messages ∧
    (d.node.handle r).1.decisions = d.node.decisions ∧
    ((∀ e, r = .decision e → d.node.agreement.Knows e) →
      (d.node.handle r).1 = d.node ∧ (d.node.handle r).2.delivered = []) := by
  have own : g.self = d.node.agreement.self := h.self.symm
  cases r with
  | message m =>
    have sender : m.id.sender = d.node.agreement.self := own ▸ of_decide_eq_true admitted
    have ignored : d.node.agreement.propose m = (d.node.agreement, none) :=
      Agreement.propose_of_ignores (.inl sender)
    refine ⟨rfl, rfl, fun _ => ?_⟩
    rw [Node.handle, ignored]
    exact ⟨rfl, rfl⟩
  | proposal x =>
    have voter : x.stamp.proposer = d.node.agreement.self :=
      own ▸ of_decide_eq_true (Bool.and_eq_true_iff.mp admitted).1
    have unasked : d.node.messages.acknowledge x.id x.stamp.proposer =
        (d.node.messages, false) := by
      apply Outbox.acknowledge_eq_self h.aligned.sound
      exact fun m _ owes => h.outgoing.owed_others m _ owes voter
    have taken : d.node.takeProposal x = (d.node, []) := by
      rw [Node.takeProposal, Node.acknowledgeMessage, unasked]
    rw [Node.handle, taken]
    exact ⟨rfl, rfl, fun _ => ⟨rfl, rfl⟩⟩
  | decision e =>
    refine ⟨rfl, rfl, fun known => ?_⟩
    obtain ⟨counted, settled⟩ := known e rfl
    have followed : d.node.agreement.adopt e = (d.node.agreement, []) :=
      Agreement.adopt_eq_self h.coherent counted settled
    rw [Node.handle, Agreement.follow, followed]
    exact ⟨rfl, rfl⟩
  | receipt x =>
    have signer : x.signer = d.node.agreement.self :=
      own ▸ of_decide_eq_true (Bool.and_eq_true_iff.mp admitted).1
    have unasked : d.node.decisions.acknowledge x.id x.signer = (d.node.decisions, false) := by
      apply Outbox.acknowledge_eq_self h.outgoing.sound
      exact fun e _ owes => h.outgoing.announced_others e _ owes signer
    rw [Node.handle, unasked]
    exact ⟨rfl, rfl, fun _ => ⟨rfl, rfl⟩⟩
  | marker sender => exact ⟨rfl, rfl, fun _ => ⟨rfl, rfl⟩⟩

/-- Whatever a datagram from the own address of a member holds, it takes nothing off the outboxes,
and it changes and delivers nothing at all, unless it is a decision on an own message that the
member does not know. However its calls are interleaved, this holds at any time. -/
theorem own_address_inert {settings : Settings} {g : Group} {n : Node}
    (started : Node.start settings g = .ok n) (distinct : (g.members.map Member.address).Nodup)
    {own : Address} (here : g.addressOf g.self = some own) {turns : List Turn} {d : Desk}
    (run : d = (Desk.start n).run turns) (draws : Draws) (bytes : Bytes) :
    (d.node.hear draws own bytes).1.messages = d.node.messages ∧
    (d.node.hear draws own bytes).1.decisions = d.node.decisions ∧
    ((d.node.hear draws own bytes).1 = d.node ∧
        (d.node.hear draws own bytes).2.1.delivered = [] ∨
      ∃ e, Record.decode bytes = .ok (.decision e) ∧ e.id.sender = g.self ∧
        ¬ d.node.agreement.Knows e) := by
  have regular : d.Regular g := run ▸ regular_run started turns
  have source : d.node.group.memberAt own = some g.self := by
    rw [regular.group]
    exact Group.memberAt_of_addressOf distinct here
  unfold Node.hear
  cases holds : Record.decode bytes with
  | error e => exact ⟨rfl, rfl, .inl ⟨rfl, rfl⟩⟩
  | ok r =>
    dsimp only
    rcases d.node.receive_cases draws own r with ⟨-, after, effect⟩ | ⟨taken, after, effect⟩
    · rw [after, effect]
      exact ⟨rfl, rfl, .inl ⟨rfl, rfl⟩⟩
    · have admitted := Node.admits_of_accepts source taken
      obtain ⟨messages, decisions, inert⟩ := regular.handle_own admitted
      rw [after, effect]
      refine ⟨messages, decisions, ?_⟩
      by_cases known : ∀ e, r = .decision e → d.node.agreement.Knows e
      · exact .inl (inert known)
      · push Not at known
        obtain ⟨e, rfl, unknown⟩ := known
        exact .inr ⟨e, rfl, of_decide_eq_true (Bool.and_eq_true_iff.mp admitted).1, unknown⟩

/-- A member whose message is on its way gets its own proposal for it. -/
theorem own_address_inert_of_proposal :
    let g : Group := ⟨⟨1⟩, Group.onLoopback 3⟩
    let n : Node := ⟨g, .ofSettings .standard, .start g.self g.ids, .empty, .empty⟩
    let d := (Desk.start n).run [.multicast 7, .work]
    let bytes := Record.encode (.proposal ⟨⟨⟨1⟩, 1⟩, ⟨1, ⟨1⟩⟩⟩)
    Node.start .standard g = .ok n ∧ (g.members.map Member.address).Nodup ∧
      g.addressOf g.self = some (.loopback 1) ∧ d.node.messages.inFlight = [⟨⟨1⟩, 1⟩] ∧
      (d.node.hear (.ofList []) (.loopback 1) bytes).1 = d.node ∧
      (d.node.hear (.ofList []) (.loopback 1) bytes).2.1.delivered = [] := by
  intro g n d bytes
  have started : Node.start .standard g = .ok n := rfl
  have distinct : (g.members.map Member.address).Nodup := by decide
  have here : g.addressOf g.self = some (.loopback 1) := by decide
  refine ⟨started, distinct, here, by decide +kernel, ?_⟩
  obtain ⟨-, -, inert | ⟨e, decision, -⟩⟩ :=
    own_address_inert started distinct here (d := d) rfl (.ofList []) bytes
  · exact inert
  · rw [Record.decode_encode] at decision
    cases decision

/-- A decision from the own address is followed although nobody else has proposed: the message is
delivered at once, and the number of the decision counts from then on. -/
theorem own_decision_followed :
    let g : Group := ⟨⟨1⟩, Group.onLoopback 3⟩
    let n : Node := ⟨g, .ofSettings .standard, .start g.self g.ids, .empty, .empty⟩
    let d := (Desk.start n).run [.multicast 7, .work]
    let e : Decision := ⟨⟨⟨1⟩, 1⟩, ⟨9, ⟨1⟩⟩⟩
    let k := d.node.hear (.ofList []) (.loopback 1) (Record.encode (.decision e))
    Node.start .standard g = .ok n ∧ (g.members.map Member.address).Nodup ∧
      g.addressOf g.self = some (.loopback 1) ∧ d.duty.isFree = true ∧
      (d.node.agreement.ballots.get? e.id).map Table.entries = some [(⟨1⟩, 1)] ∧
      d.node.agreement.latest = 1 ∧ k.1.agreement.latest = 9 ∧
      k.2.1.delivered = [⟨⟨⟨1⟩, 1⟩, 7⟩] := by
  refine ⟨rfl, by decide, by decide, ?_⟩
  decide +kernel

end Desk

end Concord
