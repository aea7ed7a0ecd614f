import Concord.Proofs.Order.Repetition
import Concord.Proofs.World.Moves

/-!
What a member has made of a record that it handled. No later step undoes it: what a member has
answered or learned stays noted, what was acknowledged is never owed again, and what a member
ignores it goes on to ignore. So there is nothing left to do for the record if it comes again.
-/

namespace Concord

namespace Ledger

variable {roster : Roster} {past later : List Event}

/-- A message is sent with an id that nothing had before. -/
theorem sent_new (h : Ledger roster (past ++ later)) {m k : Message} (new : .sent m ∈ later)
    (old : .sent k ∈ past) : k.id ≠ m.id := by
  obtain ⟨before, after, rfl⟩ := List.append_of_mem new
  have follows := h.followed (past ++ before) (.sent m) after (by rw [List.append_assoc])
  exact follows k (List.mem_append_left _ old)

theorem decided_new (h : Ledger roster (past ++ later)) {d e : Decision} {l k : List MemberId}
    (new : .decided d l ∈ later) (old : .decided e k ∈ past) : e.id ≠ d.id := by
  obtain ⟨before, after, rfl⟩ := List.append_of_mem new
  have follows := h.followed (past ++ before) (.decided d l) after (by rw [List.append_assoc])
  exact follows.1 e k (List.mem_append_left _ old)

end Ledger

namespace Node

variable {n k : Node}

/-- What a member owes after a step it owed before, or it sent or decided it in this step. -/
structure Onward (n k : Node) (events : List Event) : Prop where
  change : n.agreement.Change k.agreement
  messages : ∀ m r, k.messages.Owes m r → n.messages.Owes m r ∨ .sent m ∈ events
  decisions : ∀ d r, k.decisions.Owes d r → n.decisions.Owes d r ∨ ∃ l, .decided d l ∈ events

theorem onward_same (n : Node) (events : List Event) : n.Onward n events :=
  ⟨.same, fun _ _ owes => .inl owes, fun _ _ owes => .inl owes⟩

theorem owes_putAll {o : Outbox Decision} {recipients : List MemberId}
    {settlements : List Settlement} {d : Decision} {r : MemberId} :
    (putAll o recipients settlements).Owes d r ↔
      o.Owes d r ∨ r ∈ recipients ∧ ∃ s ∈ settlements, s.decision = d := by
  induction settlements generalizing o with
  | nil => simp [putAll]
  | cons s rest ih =>
    have first : putAll o recipients (s :: rest) =
        putAll (o.put s.decision recipients) recipients rest := rfl
    rw [first, ih, Outbox.owes_put, List.exists_mem_cons_iff]
    constructor
    · rintro ((old | ⟨rfl, listed⟩) | ⟨listed, later⟩)
      · exact .inl old
      · exact .inr ⟨listed, .inl rfl⟩
      · exact .inr ⟨listed, .inr later⟩
    · rintro (old | ⟨listed, rfl | later⟩)
      · exact .inl (.inl old)
      · exact .inl (.inr ⟨rfl, listed⟩)
      · exact .inr ⟨listed, later⟩

/-- Only what was just decided becomes owed by publishing. -/
theorem owes_of_putAll {o : Outbox Decision} {recipients : List MemberId}
    {settlements : List Settlement} {a : Agreement} {events : List Event} {d : Decision}
    {r : MemberId} (noted : ∀ e ∈ a.verdicts settlements, e ∈ events)
    (owes : (putAll o recipients settlements).Owes d r) :
    o.Owes d r ∨ ∃ l, .decided d l ∈ events := by
  rcases owes_putAll.mp owes with old | ⟨-, s, hs, rfl⟩
  · exact .inl old
  · right
    refine ⟨a.live.toList, noted _ (List.mem_flatMap.mpr ⟨s, hs, ?_⟩)⟩
    exact List.mem_cons_self

theorem onward_multicast {payload : UInt32} {delivered : List Message}
    (ok : n.multicast payload = .ok (k, delivered)) :
    n.Onward k (n.multicastEvents payload) := by
  refine ⟨change_multicast ok, ?_, ?_⟩
  · intro m r owes
    rw [multicast_eq] at ok
    split at ok
    · cases ok
    · rename_i a m' settlement created
      obtain rfl : (publishAll _ _).1 = k := congrArg Prod.fst (Except.ok.inj ok)
      rw [publishAll_eq] at owes
      rcases Outbox.owes_put.mp owes with old | ⟨rfl, -⟩
      · exact .inl old
      · right
        simp [multicastEvents, created]
  · intro d r owes
    rw [multicast_eq] at ok
    split at ok
    · cases ok
    · rename_i a m' settlement created
      obtain rfl : (publishAll _ _).1 = k := congrArg Prod.fst (Except.ok.inj ok)
      have noted : ∀ e ∈ a.verdicts settlement.toList, e ∈ n.multicastEvents payload := by
        intro e he
        simp only [multicastEvents, created]
        exact List.mem_append_right _ he
      rw [publishAll_eq] at owes
      exact owes_of_putAll noted owes

theorem onward_remove (n : Node) (other : MemberId) :
    n.Onward (n.remove other).1 (n.removeEvents other) := by
  refine ⟨n.change_remove other, ?_, ?_⟩
  · intro m r owes
    dsimp only [remove] at owes
    rw [publishAll_eq] at owes
    exact .inl (Outbox.owes_forget.mp owes).1
  · intro d r owes
    have noted : ∀ e ∈ (n.agreement.remove other).1.verdicts (n.agreement.remove other).2,
        e ∈ n.removeEvents other := fun e he => List.mem_cons_of_mem _ he
    dsimp only [remove] at owes
    rw [publishAll_eq] at owes
    rcases owes_of_putAll noted owes with old | new
    · exact .inl (Outbox.owes_forget.mp old).1
    · exact .inr new

theorem messages_takeProposal (n : Node) (x : Proposal) :
    (n.takeProposal x).1.messages = (n.messages.acknowledge x.id x.stamp.proposer).1 := by
  rw [takeProposal_eq, conclude_eq]
  split <;> rfl

theorem onward_handle (n : Node) (r : Record) : n.Onward (n.handle r).1 (n.handleEvents r) := by
  refine ⟨n.change_handle r, ?_, ?_⟩
  · intro m q owes
    cases r with
    | proposal x =>
      rw [handle, messages_takeProposal] at owes
      exact .inl (Outbox.owes_of_acknowledge owes)
    | _ => exact .inl owes
  · intro d q owes
    cases r with
    | proposal x =>
      rw [handle, takeProposal_eq, conclude_eq] at owes
      rw [handleEvents, Agreement.count_eq]
      dsimp only at owes ⊢
      split at owes
      · rename_i awaited
        rw [if_pos awaited]
        exact owes_of_putAll (fun e he => he) owes
      · exact .inl owes
    | receipt r => exact .inl (Outbox.owes_of_acknowledge owes)
    | _ => exact .inl owes

/-- What is left of a record that a member has handled, and what it replied. -/
inductive Absorbed (H : List Event) (n : Node) : Record → Option (MemberId × Record) → Prop
  | ignored {m : Message} (ignores : n.agreement.Ignores m.id) : Absorbed H n (.message m) none
  | answered {m : Message} {x : Proposal} (foreign : m.id.sender ≠ n.agreement.self)
      (about : x.id = m.id) (own : x.stamp.proposer = n.agreement.self)
      (proposed : .proposed x ∈ H) :
      Absorbed H n (.message m) (some (m.id.sender, .proposal x))
  | counted {x : Proposal}
      (unawaited : ∀ m : Message, m.id = x.id → ¬ n.messages.Owes m x.stamp.proposer) :
      Absorbed H n (.proposal x) none
  | followed {d : Decision} (learned : .learned n.agreement.self d ∈ H) :
      Absorbed H n (.decision d) (some (d.id.sender, .receipt ⟨d.id, n.agreement.self⟩))
  | confirmed {r : Receipt}
      (unawaited : ∀ d : Decision, d.id = r.id → ¬ n.decisions.Owes d r.signer) :
      Absorbed H n (.receipt r) none

end Node

namespace Seat

variable {roster : Roster} {H : List Event} {p : MemberId} {log : List Message} {n : Node}

theorem absorbed_message (seat : Seat roster H p log n) (m : Message) :
    (n.handle (.message m)).1.Absorbed (H ++ n.handleEvents (.message m)) (.message m)
      (n.handle (.message m)).2.reply := by
  rw [Node.handle, Node.handleEvents]
  rcases n.agreement.propose_cases m with same | ⟨x, found, same⟩ |
    ⟨number, foreign, -, -, -, new⟩
  · have ignores : n.agreement.Ignores m.id := Agreement.ignores_of_propose (by rw [same])
    rw [same]
    exact .ignored ignores
  · by_cases own : m.id.sender = n.agreement.self
    · rw [Agreement.propose, if_pos own] at same
      cases same
    · obtain ⟨about, place, proposed, -⟩ := seat.answering.genuine m.id x found
      rw [same]
      exact .answered own about (place.trans seat.self.symm) (List.mem_append_left _ proposed)
  · rw [new]
    exact .answered (x := ⟨m.id, ⟨number, n.agreement.self⟩⟩) foreign rfl rfl
      (List.mem_append_right _ List.mem_cons_self)

/-- Whatever it is, a record is absorbed once it is handled. -/
theorem absorbed_handle (seat : Seat roster H p log n) {r : Record} (meant : r.Meant H p) :
    (n.handle r).1.Absorbed (H ++ n.handleEvents r) r (n.handle r).2.reply := by
  cases r with
  | message m => exact seat.absorbed_message m
  | proposal x =>
    apply Node.Absorbed.counted
    intro m about owes
    rw [Node.handle, Node.messages_takeProposal] at owes
    exact ((Outbox.owes_acknowledge seat.polling.sound).mp owes).2 ⟨about, rfl⟩
  | decision d =>
    apply Node.Absorbed.followed
    have self : (n.agreement.adopt d).1.self = n.self := by
      rw [(n.agreement.adopt_frame d).1, seat.self, seat.node_self]
    apply List.mem_append_right
    exact List.mem_singleton.mpr (congrArg (Event.learned · d) self)
  | receipt r =>
    apply Node.Absorbed.confirmed
    intro d about owes
    exact ((Outbox.owes_acknowledge seat.publishing.sound).mp owes).2 ⟨about, rfl⟩
  | marker sender => cases meant

end Seat

namespace Node.Absorbed

variable {roster : Roster} {H events : List Event} {p : MemberId} {log : List Message} {n k : Node}
  {r : Record} {reply : Option (MemberId × Record)}

/-- Only what is new can become owed, and a record that means something is not about what is new. -/
theorem onward (h : n.Absorbed H r reply) (meant : r.Meant H p) (coherent : n.agreement.Coherent)
    (past : Ledger roster H) (ledger : Ledger roster (H ++ events)) (onward : n.Onward k events) :
    k.Absorbed (H ++ events) r reply := by
  have self : k.agreement.self = n.agreement.self := onward.change.self
  cases h with
  | ignored ignores => exact .ignored (ignores.change coherent onward.change)
  | answered foreign about own proposed =>
    rw [← self] at foreign own
    exact .answered foreign about own (List.mem_append_left _ proposed)
  | @counted x unawaited =>
    apply Absorbed.counted
    intro m about owes
    rcases onward.messages m _ owes with old | new
    · exact unawaited m about old
    · obtain ⟨m', sent, same⟩ := past.proposed_sent x meant
      exact ledger.sent_new new sent (same.trans about.symm)
  | followed learned =>
    rw [← self] at learned ⊢
    exact .followed (List.mem_append_left _ learned)
  | @confirmed r unawaited =>
    apply Absorbed.confirmed
    intro d about owes
    rcases onward.decisions d _ owes with old | ⟨l, new⟩
    · exact unawaited d about old
    · obtain ⟨s, learned⟩ := meant
      obtain ⟨l', decided, -⟩ := past.learned_decided _ _ learned
      exact ledger.decided_new new decided about.symm

/-- A message that was answered gets the same answer as long as it waits. -/
theorem message_again (seat : Seat roster H p log n) (ledger : Ledger roster H) {m : Message}
    (h : n.Absorbed H (.message m) reply) (sent : .sent m ∈ H) :
    n.handle (.message m) = (n, ⟨[], if m ∈ log then none else reply⟩) := by
  cases h with
  | ignored ignores =>
    rw [handle, Agreement.propose_of_ignores ignores, ite_self]
    rfl
  | @answered _ x foreign about own proposed =>
    rw [seat.self] at own
    rcases seat.orderly.proposed_placed x proposed own with waits | delivered
    · rw [about] at waits
      have undelivered : m ∉ log := fun hm => seat.orderly.apart m hm waits
      obtain ⟨y, found⟩ := seat.answering.complete m.id waits (seat.self ▸ foreign)
      obtain ⟨about', own', proposed', -⟩ := seat.answering.genuine m.id y found
      obtain rfl : y = x := ledger.proposal_once y x proposed' proposed
        (about'.trans about.symm) (own'.trans own.symm)
      rw [handle, Agreement.propose_of_answer foreign found, if_neg undelivered]
      rfl
    · obtain ⟨k, hk, same⟩ := List.mem_map.mp delivered
      have same : k.id = m.id := same.trans about
      obtain rfl : k = m := ledger.sent_once k m (seat.orderly.log_sent k hk) sent same
      have unanswered : n.agreement.answers.get? k.id = none := by
        apply Option.eq_none_iff_forall_ne_some.mpr
        intro y found
        exact seat.orderly.apart k hk (seat.answering.genuine k.id y found).2.2.2
      have ignores : n.agreement.Ignores k.id :=
        .inr ⟨unanswered, .inl (seat.answering.seen k hk)⟩
      rw [handle, Agreement.propose_of_ignores ignores, if_pos hk]
      rfl

/-- A decision that was learned is final in the queue, or its message was delivered. -/
theorem adopt_learned (seat : Seat roster H p log n) (ledger : Ledger roster H)
    (coherent : n.agreement.Coherent) {d : Decision} (learned : .learned p d ∈ H) :
    n.agreement.adopt d = (n.agreement, []) := by
  apply Agreement.adopt_eq_self coherent (seat.orderly.learned_le d learned)
  intro e he about
  obtain ⟨l, decided, -⟩ := ledger.learned_decided p d learned
  have final : e.final = true := by
    rcases seat.orderly.learned_placed d learned with ⟨x, hx, same, final⟩ | delivered
    · rwa [coherent.sound.eq_of_id_eq he hx (about.trans same.symm)]
    · obtain ⟨m, hm, same⟩ := List.mem_map.mp delivered
      have waits := coherent.sound.mem_waiting.mpr ⟨e, he, about.trans same.symm⟩
      exact absurd waits (seat.orderly.apart m hm)
  exact ⟨final, seat.orderly.final_stamp ledger decided he about final⟩

/-- Handling an absorbed record again changes nothing, and the reply is the same, except that a
message is answered no more once it is delivered. -/
theorem handle_eq (h : n.Absorbed H r reply) (seat : Seat roster H p log n)
    (ledger : Ledger roster H) (coherent : n.agreement.Coherent) (meant : r.Meant H p) :
    n.handle r = (n, ⟨[], if r ∈ log.map Record.message then none else reply⟩) := by
  cases r with
  | message m =>
    have listed : Record.message m ∈ log.map Record.message ↔ m ∈ log := by simp
    simp only [listed]
    exact message_again seat ledger h meant
  | proposal x =>
    cases h with
    | counted unawaited =>
      rw [handle, takeProposal, acknowledgeMessage,
        Outbox.acknowledge_eq_self seat.polling.sound unawaited, ite_self]
  | decision d =>
    cases h with
    | followed learned =>
      rw [seat.self] at learned
      rw [handle, Agreement.follow, adopt_learned seat ledger coherent learned]
      simp
  | receipt r =>
    cases h with
    | confirmed unawaited =>
      rw [handle, Outbox.acknowledge_eq_self seat.publishing.sound unawaited, ite_self]
  | marker sender => cases meant

end Node.Absorbed

end Concord
