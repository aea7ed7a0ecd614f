import Concord.Proofs.Node.Outgoing

/-!
What a record from another member can change. It speaks for its sender only: it has a say in the
messages of its sender, and in those of the receiver as far as the sender is asked for a proposal.
-/

namespace Concord

/-- Whether a record of member `p` has a say in a message: `p` announces and decides its own
messages, and proposes for those of the receiver. -/
inductive Record.Concerns (self p : MemberId) : Record → MessageId → Prop where
  | message (m : Message) : m.id.sender = p → Concerns self p (.message m) m.id
  | decision (e : Decision) : e.id.sender = p → Concerns self p (.decision e) e.id
  | proposal (x : Proposal) : x.id.sender = self → Concerns self p (.proposal x) x.id

theorem Record.Concerns.sender {self p : MemberId} {r : Record} {id : MessageId}
    (entitled : r.Concerns self p id) : id.sender = p ∨ id.sender = self := by
  cases entitled with
  | message m own => exact .inl own
  | decision e own => exact .inl own
  | proposal x asked => exact .inr asked

/-- With this proposal every live member has proposed for the message, and the stamp wins. -/
def Agreement.Completes (a : Agreement) (x : Proposal) (s : Stamp) : Prop :=
  ∃ b : Ballot, a.ballots.get? x.id = some b ∧
    (∀ r ∈ a.live, ∃ k, (b.put x.stamp.proposer x.stamp.number).get? r = some k) ∧
    Ballot.winner? (b.put x.stamp.proposer x.stamp.number) = some s

/-- A proposal for an open message enters the ballot, or it closes the ballot. -/
theorem Agreement.count_cases {a : Agreement} (member : a.self ∈ a.live) {x : Proposal} {b : Ballot}
    (open_ : a.ballots.get? x.id = some b) :
    a.count x = (a.tallied x, none) ∨
    ∃ s, a.Completes x s ∧ a.count x = (((a.closed x.id).adopt ⟨x.id, s⟩).1,
      some ⟨⟨x.id, s⟩, ((a.closed x.id).adopt ⟨x.id, s⟩).2⟩) := by
  have tallied := tallied_eq open_
  have stays : (a.tallied x).self ∈ (a.tallied x).live := by
    rw [tallied]
    exact member
  rw [count_eq]
  rcases (a.tallied x).decide?_cases stays x.id with ⟨same, -⟩ | ⟨c, s, found, whole, won, result⟩
  · exact .inl same
  · rw [tallied, Table.get?_put, if_pos rfl] at found
    obtain rfl := Option.some.inj found
    rw [tallied] at whole
    rw [closed_tallied] at result
    exact .inr ⟨s, ⟨b, open_, whole, won⟩, result⟩

namespace Node

/-- The member still waits for the proposal, and the ballot of its message is open and lacks it. -/
structure Awaits (n : Node) (x : Proposal) (b : Ballot) : Prop where
  remaining : ∃ waiting, n.messages.remaining? x.id = some waiting ∧ x.stamp.proposer ∈ waiting
  other : x.stamp.proposer ∈ n.agreement.others
  ballot : n.agreement.ballots.get? x.id = some b
  lacking : b.get? x.stamp.proposer = none

/-- What a member may become by a record of member `p`, and what it may deliver. -/
structure Confined (p : MemberId) (r : Record) (n k : Node) (delivered : List Message) : Prop where
  /-- The messages of third members stay as they are until they are delivered. -/
  third : ∀ e ∈ n.agreement.queue.entries, e.id.sender ≠ p → e.id.sender ≠ n.self →
    e ∈ k.agreement.queue.entries ∨ e.final = true ∧ e.message ∈ delivered
  added : ∀ e ∈ k.agreement.queue.entries,
    e ∈ n.agreement.queue.entries ∨ r.Concerns n.self p e.id
  marked : ∀ e ∈ n.agreement.queue.entries, e.final = false →
    e ∈ k.agreement.queue.entries ∨ r.Concerns n.self p e.id
  /-- Only a proposal of `p` that was awaited enters a ballot, and it may close the ballot. -/
  ballots : (∀ id, k.agreement.ballots.get? id = n.agreement.ballots.get? id) ∨
    ∃ x b, r = .proposal x ∧ x.id.sender = n.self ∧ x.stamp.proposer = p ∧ n.Awaits x b ∧
      (∀ id, id ≠ x.id → k.agreement.ballots.get? id = n.agreement.ballots.get? id) ∧
      (k.agreement.ballots.get? x.id = some (b.put p x.stamp.number) ∨
        k.agreement.ballots.get? x.id = none ∧ ∃ s, n.agreement.Completes x s)
  messages : k.messages.parcels = n.messages.parcels ∨
    ∃ x, r = .proposal x ∧ x.id.sender = n.self ∧
      k.messages.parcels = Outbox.without (fun m => m.id = x.id) p n.messages.parcels
  decisions : k.decisions.parcels = n.decisions.parcels ∨
    (∃ y, r = .receipt y ∧
      k.decisions.parcels = Outbox.without (fun e => e.id = y.id) p n.decisions.parcels) ∨
    ∃ x s, r = .proposal x ∧ n.agreement.Completes x s ∧
      k.agreement.ballots.get? x.id = none ∧
      k.decisions.parcels =
        n.decisions.parcels ++ [⟨⟨x.id, s⟩, Roll.ofList n.agreement.others⟩]
  live : k.agreement.live = n.agreement.live
  created : k.agreement.created = n.agreement.created

namespace Confined

variable {p : MemberId} {r : Record} {n : Node}

theorem same (p : MemberId) (r : Record) (n : Node) : Confined p r n n [] where
  third _ he _ _ := .inl he
  added _ he := .inl he
  marked _ he _ := .inl he
  ballots := .inl fun _ => rfl
  messages := .inl rfl
  decisions := .inl rfl
  live := rfl
  created := rfl

/-- A decision that the record has a say in changes the queue as far as the record may. -/
theorem queue_adopt (sound : n.agreement.queue.Sound) {e : Decision}
    (entitled : r.Concerns n.self p e.id) :
    (∀ f ∈ n.agreement.queue.entries, f.id.sender ≠ p → f.id.sender ≠ n.self →
      f ∈ (n.agreement.queue.adopt e).1.entries ∨
        f.final = true ∧ f.message ∈ (n.agreement.queue.adopt e).2) ∧
    (∀ f ∈ (n.agreement.queue.adopt e).1.entries,
      f ∈ n.agreement.queue.entries ∨ r.Concerns n.self p f.id) ∧
    ∀ f ∈ n.agreement.queue.entries, f.final = false →
      f ∈ (n.agreement.queue.adopt e).1.entries ∨ r.Concerns n.self p f.id := by
  refine ⟨fun f hf apart foreign => ?_, fun f hf => ?_, fun f hf open_ => ?_⟩
  · apply HoldBack.kept_or_released sound e hf
    intro about
    exact entitled.sender.elim (about ▸ apart) (about ▸ foreign)
  · rcases HoldBack.mem_or_about_of_adopt sound e hf with old | about
    · exact .inl old
    · exact .inr (about ▸ entitled)
  · by_cases about : f.id = e.id
    · exact .inr (about ▸ entitled)
    · refine (HoldBack.kept_or_released sound e hf about).imp_right fun released => ?_
      cases open_.symm.trans released.1

end Confined

end Node

namespace Desk

variable {g : Group} {d : Desk} {p : MemberId}

namespace Regular

/-- A proposal that is not awaited does nothing. -/
theorem takeProposal_cases (h : d.Regular g) (free : d.duty = .free) (x : Proposal) :
    d.node.takeProposal x = (d.node, []) ∨
    ∃ b, d.node.Awaits x b ∧
      d.node.takeProposal x = (d.node.acknowledgeMessage x).1.countProposal x := by
  have sound := h.aligned.sound
  rcases Outbox.acknowledge_cases sound x.id x.stamp.proposer with same | ⟨awaited, m, about, owes⟩
  · left
    rw [Node.takeProposal, Node.acknowledgeMessage, same]
  · have live := (h.aligned.present_of_free free).1 m _ owes
    have other := h.outgoing.owed_others m _ owes
    obtain ⟨-, b, open_, absent⟩ :=
      (h.aligned.lacks x.id x.stamp.proposer).mpr ⟨live, .inl ⟨m, owes, about⟩⟩
    refine .inr ⟨b, ⟨(Outbox.mem_remaining_iff sound).mpr ⟨m, owes, about⟩,
      Agreement.mem_others.mpr ⟨live, other⟩, open_, absent⟩, ?_⟩
    have taken : (d.node.acknowledgeMessage x).2 = true := awaited
    rw [Node.takeProposal, ← Prod.eta (d.node.acknowledgeMessage x), taken]

theorem confined_message (h : d.Regular g) {m : Message} (own : m.id.sender = p) :
    Node.Confined p (.message m) d.node (d.node.handle (.message m)).1 [] := by
  rcases d.node.agreement.propose_cases m with
    same | ⟨x, -, same⟩ | ⟨number, foreign, unanswered, -, -, new⟩
  · rw [Node.handle, same]
    exact .same _ _ _
  · rw [Node.handle, same]
    exact .same _ _ _
  · have absent := h.coherent.absent_answered foreign unanswered
    have entries : (d.node.agreement.answered m number).queue.entries =
        d.node.agreement.queue.entries ++ [⟨m, ⟨number, d.node.agreement.self⟩, false⟩] :=
      congrArg HoldBack.entries (HoldBack.add_eq _ absent)
    have stays : ∀ e ∈ d.node.agreement.queue.entries,
        e ∈ (d.node.agreement.answered m number).queue.entries := by
      intro e he
      rw [entries]
      exact List.mem_append_left _ he
    rw [Node.handle, new]
    constructor
    case third => exact fun e he _ _ => .inl (stays e he)
    case added =>
      intro e he
      rcases List.mem_append.mp (entries ▸ he) with old | new
      · exact .inl old
      · rw [List.mem_singleton.mp new]
        exact .inr (.message m own)
    case marked => exact fun e he _ => .inl (stays e he)
    case ballots => exact .inl fun _ => rfl
    case messages => exact .inl rfl
    case decisions => exact .inl rfl
    case live => rfl
    case created => rfl

theorem confined_decision (h : d.Regular g) {e : Decision} (own : e.id.sender = p) :
    Node.Confined p (.decision e) d.node (d.node.handle (.decision e)).1
      (d.node.agreement.adopt e).2 := by
  obtain ⟨-, live, created, ballots⟩ := d.node.agreement.adopt_frame e
  have sound := h.coherent.sound
  have queue : (d.node.handle (.decision e)).1.agreement.queue =
      (d.node.agreement.queue.adopt e).1 := Agreement.adopt_queue sound e
  obtain ⟨third, added, marked⟩ := Node.Confined.queue_adopt sound (.decision e own)
  rw [← queue] at third added marked
  rw [Agreement.adopt_snd sound]
  exact ⟨third, added, marked, .inl fun id => congrArg (Table.get? · id) ballots, .inl rfl, .inl rfl,
    live, created⟩

section Proposal

variable {x : Proposal} {b : Ballot}

theorem confined_counted (h : d.Regular g) (asked : x.id.sender = d.node.self)
    (awaited : d.node.Awaits x b) :
    Node.Confined x.stamp.proposer (.proposal x) d.node
      { (d.node.acknowledgeMessage x).1 with agreement := d.node.agreement.tallied x } [] := by
  have tallied := Agreement.tallied_eq awaited.ballot
  have ballot : ∀ id, (d.node.agreement.tallied x).ballots.get? id =
      if x.id = id then some (b.put x.stamp.proposer x.stamp.number)
      else d.node.agreement.ballots.get? id := by
    intro id
    rw [tallied]
    exact Table.get?_put _ _ _ _
  have queue : (d.node.agreement.tallied x).queue = d.node.agreement.queue := by rw [tallied]
  constructor
  case third => exact fun e he _ _ => .inl (queue.symm ▸ he)
  case added => exact fun e he => .inl (queue ▸ he)
  case marked => exact fun e he _ => .inl (queue.symm ▸ he)
  case ballots =>
    refine .inr ⟨x, b, rfl, asked, rfl, awaited, fun id other => ?_, .inl ?_⟩
    · exact (ballot id).trans (if_neg (Ne.symm other))
    · exact (ballot x.id).trans (if_pos rfl)
  case messages => exact .inr ⟨x, rfl, asked, Outbox.acknowledge_eq h.aligned.sound _ _⟩
  case decisions => exact .inl rfl
  case live => exact (d.node.agreement.tallied_frame x).2
  case created =>
    change (d.node.agreement.tallied x).created = d.node.agreement.created
    rw [tallied]

theorem confined_decided (h : d.Regular g) (asked : x.id.sender = d.node.self)
    (awaited : d.node.Awaits x b) {s : Stamp} (completes : d.node.agreement.Completes x s) :
    Node.Confined x.stamp.proposer (.proposal x) d.node
      { (d.node.acknowledgeMessage x).1 with
        agreement := ((d.node.agreement.closed x.id).adopt ⟨x.id, s⟩).1
        decisions := d.node.decisions.put ⟨x.id, s⟩ d.node.agreement.others }
      ((d.node.agreement.closed x.id).adopt ⟨x.id, s⟩).2 := by
  have sound : (d.node.agreement.closed x.id).queue.Sound := h.coherent.sound
  obtain ⟨-, live, created, ballots⟩ := (d.node.agreement.closed x.id).adopt_frame ⟨x.id, s⟩
  have ballot : ∀ id, ((d.node.agreement.closed x.id).adopt ⟨x.id, s⟩).1.ballots.get? id =
      if x.id = id then none else d.node.agreement.ballots.get? id := by
    intro id
    rw [ballots]
    exact Table.get?_erase _ _ _
  have appended := (d.node.decisions.put_eq_or ⟨x.id, s⟩ d.node.agreement.others).resolve_left
    fun nobody => nobody.2 x.stamp.proposer awaited.other
  have queue := Agreement.adopt_queue sound ⟨x.id, s⟩
  obtain ⟨third, added, marked⟩ := Node.Confined.queue_adopt (p := x.stamp.proposer)
    (e := ⟨x.id, s⟩) h.coherent.sound (.proposal x asked)
  rw [Agreement.adopt_snd sound]
  constructor
  case third => exact queue ▸ third
  case added => exact queue ▸ added
  case marked => exact queue ▸ marked
  case ballots =>
    refine .inr ⟨x, b, rfl, asked, rfl, awaited, fun id other => ?_, .inr ⟨?_, s, completes⟩⟩
    · exact (ballot id).trans (if_neg (Ne.symm other))
    · exact (ballot x.id).trans (if_pos rfl)
  case messages => exact .inr ⟨x, rfl, asked, Outbox.acknowledge_eq h.aligned.sound _ _⟩
  case decisions =>
    exact .inr (.inr ⟨x, s, rfl, completes, (ballot x.id).trans (if_pos rfl), appended.1⟩)
  case live => exact live
  case created => exact created

theorem confined_proposal (h : d.Regular g) (free : d.duty = .free)
    (asked : x.id.sender = d.node.self) :
    Node.Confined x.stamp.proposer (.proposal x) d.node (d.node.takeProposal x).1
      (d.node.takeProposal x).2 := by
  rcases h.takeProposal_cases free x with same | ⟨b, awaited, taken⟩
  · rw [same]
    exact .same _ _ _
  · have unchanged : (d.node.acknowledgeMessage x).1.agreement = d.node.agreement := rfl
    rw [taken, Node.countProposal, unchanged]
    rcases Agreement.count_cases h.coherent.self_live awaited.ballot with
      counted | ⟨s, completes, decided⟩
    · rw [counted]
      exact h.confined_counted asked awaited
    · obtain ⟨self, live, -, -⟩ := (d.node.agreement.closed x.id).adopt_frame ⟨x.id, s⟩
      have others : ((d.node.agreement.closed x.id).adopt ⟨x.id, s⟩).1.others =
          d.node.agreement.others := by
        rw [Agreement.others, self, live]
        rfl
      rw [decided]
      dsimp only
      rw [Option.toList_some, Node.publishAll_eq, Node.putAll, List.foldl_cons,
        List.foldl_nil, List.flatMap_singleton, others]
      exact h.confined_decided asked awaited completes

end Proposal

/-- Whatever the record of a member says, it speaks for its sender only. -/
theorem confined (h : d.Regular g) (free : d.duty = .free) {r : Record}
    (admitted : d.node.admits p r = true) :
    Node.Confined p r d.node (d.node.handle r).1 (d.node.handle r).2.delivered := by
  cases r with
  | message m => exact h.confined_message (of_decide_eq_true admitted)
  | proposal x =>
    obtain ⟨voter, asked⟩ := Bool.and_eq_true_iff.mp admitted
    exact of_decide_eq_true voter ▸ h.confined_proposal free (of_decide_eq_true asked)
  | decision e =>
    exact h.confined_decision (of_decide_eq_true (Bool.and_eq_true_iff.mp admitted).1)
  | receipt y =>
    have signer : y.signer = p := of_decide_eq_true (Bool.and_eq_true_iff.mp admitted).1
    have left := Outbox.acknowledge_eq h.outgoing.sound y.id y.signer
    exact { Node.Confined.same p (.receipt y) d.node with
      decisions := .inr (.inl ⟨y, rfl, signer ▸ left⟩) }
  | marker sender => exact .same _ _ _

end Regular

/-- A member handles records from all others, but however its calls are interleaved, what a record
changes is confined to what its sender may say. -/
theorem record_confined {settings : Settings} {g : Group} {n : Node}
    (started : Node.start settings g = .ok n) {turns : List Turn} {d : Desk}
    (run : d = (Desk.start n).run turns) (free : d.duty = .free) {source : Address} {p : MemberId}
    (member : g.memberAt source = some p) (draws : Draws) (r : Record) :
    Node.Confined p r d.node (d.node.receive draws source r).1
      (d.node.receive draws source r).2.1.delivered := by
  have regular : d.Regular g := run ▸ regular_run started turns
  have here : d.node.group.memberAt source = some p := regular.group.symm ▸ member
  rcases d.node.receive_cases draws source r with ⟨-, after, effect⟩ | ⟨taken, after, effect⟩
  · rw [after, effect]
    exact .same p r d.node
  · rw [after, effect]
    exact regular.confined free (Node.admits_of_accepts here taken)

/-- The last proposal for an own message arrives while a message of another member waits: the
message is decided, and the other one stays as it is. -/
theorem record_confined_of_last_proposal :
    let g : Group := ⟨⟨1⟩, Group.onLoopback 3⟩
    let n : Node := ⟨g, .ofSettings .standard, .start g.self g.ids, .empty, .empty⟩
    let first : Proposal := ⟨⟨⟨1⟩, 1⟩, ⟨1, ⟨2⟩⟩⟩
    let last : Proposal := ⟨⟨⟨1⟩, 1⟩, ⟨5, ⟨3⟩⟩⟩
    let m : Message := ⟨⟨⟨2⟩, 1⟩, 8⟩
    let d := (Desk.start n).run
      [.multicast 7, .work, .receive (.proposal first), .count first, .receive (.message m)]
    Node.start .standard g = .ok n ∧ d.duty.isFree = true ∧
      g.memberAt (.loopback 3) = some ⟨3⟩ ∧
      Node.Confined ⟨3⟩ (.proposal last) d.node
        (d.node.receive (.ofList []) (.loopback 3) (.proposal last)).1
        (d.node.receive (.ofList []) (.loopback 3) (.proposal last)).2.1.delivered ∧
      let k := (d.node.receive (.ofList []) (.loopback 3) (.proposal last)).1
      k.decisions.inFlight = [⟨⟨1⟩, 1⟩] ∧
      k.agreement.queue.entries = [⟨m, ⟨2, ⟨1⟩⟩, false⟩, ⟨⟨⟨⟨1⟩, 1⟩, 7⟩, ⟨5, ⟨3⟩⟩, true⟩] := by
  intro g n first last m d
  have started : Node.start .standard g = .ok n := rfl
  have free : d.duty.isFree = true := by decide +kernel
  have member : g.memberAt (.loopback 3) = some ⟨3⟩ := by decide
  have confined :=
    record_confined started (d := d) rfl (Duty.isFree_iff.mp free) member (.ofList []) (.proposal last)
  exact ⟨started, free, member, confined, by decide +kernel⟩

end Desk

end Concord
