import Concord.Proofs.World.Seat

/-!
Every operation of a member keeps to the rules, as long as the records that it receives mean
something in the history.
-/

namespace Concord

/-- What a record tells the member that receives it is true. -/
def Record.Meant (H : List Event) (target : MemberId) : Record → Prop
  | .message m => .sent m ∈ H
  | .proposal x => .proposed x ∈ H
  | .decision d => ∃ l, .decided d l ∈ H ∧ target ∈ l
  | .receipt r => ∃ s, .learned r.signer ⟨r.id, s⟩ ∈ H
  | .marker _ => False

namespace Seat

variable {roster : Roster} {H : List Event} {p : MemberId} {log : List Message} {n : Node}

/-- The next number of a member exceeds all that it has proposed or learned. -/
theorem first_proposal (seat : Seat roster H p log n) (id : MessageId) {number : UInt32}
    (next : Agreement.after? n.agreement.latest = some number)
    (new : ∀ y, .proposed y ∈ H → y.stamp.proposer = p → y.id ≠ id) :
    (∀ y, .proposed y ∈ H → y.stamp.proposer = p → y.id ≠ id ∧ y.stamp.number < number) ∧
      ∀ d, .learned p d ∈ H → d.stamp.number < number := by
  constructor
  · intro y hy own
    exact ⟨new y hy own, Agreement.lt_after next (seat.orderly.proposed_le y hy own)⟩
  · exact fun d hd => Agreement.lt_after next (seat.orderly.learned_le d hd)

theorem draft (seat : Seat roster H p log n) (ledger : Ledger roster H) {m : Message}
    {number : UInt32} (own : m.id.sender = n.agreement.self)
    (next : Agreement.after? n.agreement.created = some m.id.number)
    (above : Agreement.after? n.agreement.latest = some number) :
    Advance roster H [.sent m, .proposed ⟨m.id, ⟨number, p⟩⟩] p log (n.drafted m number) := by
  have here : m.id.sender = p := own.trans seat.self
  have unsent := seat.polling.unsent own next
  have absent : m.id ∉ n.agreement.queue.waiting := by
    intro waits
    obtain ⟨e, he, same⟩ := seat.orderly.sound.mem_waiting.mp waits
    exact unsent _ (seat.orderly.entry_sent e he) same
  have undelivered : m.id ∉ log.map Message.id := by
    intro listed
    obtain ⟨k, hk, same⟩ := List.mem_map.mp listed
    exact unsent k (seat.orderly.log_sent k hk) same
  have grows : ∀ e ∈ H, e ∈ H ++ [.sent m] := fun e he => List.mem_append_left _ he
  have proposals : ∀ y, .proposed y ∈ H ++ [.sent m] → .proposed y ∈ H := fun y hy => by
    simpa using hy
  have ledger₁ : Ledger roster (H ++ [.sent m]) := ledger.append (seat.placed here) unsent
  have first := seat.first_proposal m.id above fun y hy _ same => by
    obtain ⟨k, hk, about⟩ := ledger.proposed_sent y hy
    exact unsent k hk (about.trans same)
  have drafted := seat.polling.draft ledger number own next
  rw [seat.self] at drafted
  constructor
  · intro e he
    rcases List.mem_pair.mp he with rfl | rfl
    · exact here
    · rfl
  · rw [List.append_cons]
    refine ledger₁.append seat.member
      (.inr ⟨⟨m, List.mem_concat_self, rfl⟩, fun y hy => ?_, fun d hd => ?_⟩)
    · exact first.1 y (proposals y hy)
    · exact first.2 d (by simpa using hd)
  · rw [List.append_cons]
    constructor
    case member => exact seat.member
    case group => exact seat.group
    case self => exact seat.self
    case live =>
      intro r
      refine (seat.live r).trans ?_
      simp
    case orderly =>
      have before := seat.orderly.mono grows (fun y hy _ => proposals y hy)
        fun d hd => by simpa using hd
      rw [Node.drafted, Agreement.drafted, seat.self]
      exact before.enter List.mem_concat_self absent undelivered above
    case blocked => exact HoldBack.blocked_add seat.blocked _ _
    case answering =>
      exact (seat.answering.draft here absent number).mono fun e he =>
        List.mem_append_left _ (grows e he)
    case polling => exact drafted
    case publishing =>
      exact seat.publishing.mono (fun e he => List.mem_append_left _ (grows e he))
        fun d l hd _ => by simpa using hd

/-- A foreign message that was neither answered nor delivered is new here. -/
theorem answer (seat : Seat roster H p log n) (ledger : Ledger roster H) {m : Message}
    {number : UInt32} (sent : .sent m ∈ H) (foreign : m.id.sender ≠ n.agreement.self)
    (unanswered : n.agreement.answers.get? m.id = none)
    (undelivered : n.agreement.hasDelivered m.id = false)
    (above : Agreement.after? n.agreement.latest = some number) :
    Advance roster H [.proposed ⟨m.id, ⟨number, p⟩⟩] p log
      { n with agreement := n.agreement.answered m number } := by
  have absent : m.id ∉ n.agreement.queue.waiting := by
    intro waits
    obtain ⟨x, found⟩ := seat.answering.complete m.id waits (seat.self ▸ foreign)
    rw [unanswered] at found
    cases found
  have unlisted : m.id ∉ log.map Message.id := by
    intro listed
    obtain ⟨k, hk, same⟩ := List.mem_map.mp listed
    have seen := seat.answering.seen k hk
    rw [same, undelivered] at seen
    cases seen
  have first := seat.first_proposal m.id above fun y hy own same => by
    rcases seat.orderly.proposed_placed y hy own with waits | delivered
    · exact absent (same ▸ waits)
    · exact unlisted (same ▸ delivered)
  have grows : ∀ e ∈ H, e ∈ H ++ [.proposed ⟨m.id, ⟨number, p⟩⟩] :=
    fun e he => List.mem_append_left _ he
  constructor
  · intro e he
    rw [List.mem_singleton.mp he]
    rfl
  · exact ledger.append seat.member (.inr ⟨⟨m, sent, rfl⟩, first⟩)
  · constructor
    case member => exact seat.member
    case group => exact seat.group
    case self => exact seat.self
    case live =>
      intro r
      refine (seat.live r).trans ?_
      simp
    case orderly =>
      rw [Agreement.answered, seat.self]
      exact seat.orderly.enter sent absent unlisted above
    case blocked => exact HoldBack.blocked_add seat.blocked _ _
    case answering =>
      exact (seat.answering.mono grows).answer absent List.mem_concat_self seat.self
    case polling =>
      refine (seat.polling.mono grows (fun k hk _ => ?_) fun d l hd _ => ?_).frame
        ⟨rfl, rfl, rfl, rfl⟩
      · simpa using hk
      · simpa using hd
    case publishing => exact seat.publishing.mono grows fun d l hd _ => by simpa using hd

/-- A proposal that was still awaited counts. -/
theorem tally (seat : Seat roster H p log n) {x : Proposal} (proposed : .proposed x ∈ H)
    (awaited : (n.acknowledgeMessage x).2 = true) :
    Seat roster H p log
      { (n.acknowledgeMessage x).1 with agreement := n.agreement.tallied x } := by
  obtain ⟨m, about, owes⟩ := (Outbox.acknowledge_snd_iff seat.polling.sound).mp awaited
  have tallied := seat.polling.tally proposed about owes
  obtain ⟨-, -, b, found, -⟩ := (seat.polling.due m _).mp owes
  rw [show m.id = x.id from about] at found
  rw [Agreement.tallied_eq found] at tallied ⊢
  exact ⟨seat.member, seat.group, seat.self, seat.live, seat.orderly, seat.blocked,
    ⟨seat.answering.genuine, seat.answering.complete, seat.answering.seen⟩, tallied,
    seat.publishing⟩

/-- A proposal that is not awaited any more changes nothing. -/
theorem ignore (seat : Seat roster H p log n) {x : Proposal}
    (unawaited : (n.acknowledgeMessage x).2 = false) :
    Seat roster H p log (n.acknowledgeMessage x).1 := by
  have none : ∀ m : Message, m.id = x.id → ¬ n.messages.Owes m x.stamp.proposer := by
    intro m about owes
    have awaited := (Outbox.acknowledge_snd_iff seat.polling.sound).mpr ⟨m, about, owes⟩
    exact Bool.false_ne_true (unawaited.symm.trans awaited)
  exact ⟨seat.member, seat.group, seat.self, seat.live, seat.orderly, seat.blocked,
    seat.answering, seat.polling.unawaited none, seat.publishing⟩

theorem confirm (seat : Seat roster H p log n) (ledger : Ledger roster H) {r : Receipt} {s : Stamp}
    (learned : .learned r.signer ⟨r.id, s⟩ ∈ H) :
    Seat roster H p log { n with decisions := (n.decisions.acknowledge r.id r.signer).1 } :=
  ⟨seat.member, seat.group, seat.self, seat.live, seat.orderly, seat.blocked, seat.answering,
    seat.polling, seat.publishing.confirm ledger learned⟩

/-- The removal of a member is noted where it was asked for, also if it has no effect there. -/
theorem removed (seat : Seat roster H p log n) (ledger : Ledger roster H) {other : MemberId}
    {rest : Roll MemberId} (left : ∀ r, r ∈ rest ↔ r ∈ n.agreement.live ∧ (r ≠ other ∨ r = p)) :
    Advance roster H [.removed p other] p log
      { n.without other with agreement := { n.agreement with live := rest } } := by
  have grows : ∀ e ∈ H, e ∈ H ++ [.removed p other] := fun e he => List.mem_append_left _ he
  constructor
  · intro e he
    rw [List.mem_singleton.mp he]
    rfl
  · exact ledger.append seat.member trivial
  · constructor
    case member => exact seat.member
    case group => exact seat.group
    case self => exact seat.self
    case live =>
      intro r
      have known := seat.live r
      refine (left r).trans ?_
      rw [known]
      grind
    case orderly =>
      exact seat.orderly.mono grows (fun x hx _ => by simpa using hx) fun d hd => by simpa using hd
    case blocked => exact seat.blocked
    case answering =>
      have noted := seat.answering.mono grows
      exact ⟨noted.genuine, noted.complete, noted.seen⟩
    case polling =>
      have noted := seat.polling.mono grows (fun k hk _ => by simpa using hk)
        fun e k he _ => by simpa using he
      refine noted.forget (fun r hr => ?_) fun r hr other => (left r).mpr ⟨hr, .inl other⟩
      rw [seat.self]
      exact (left r).mp hr
    case publishing =>
      have noted := seat.publishing.mono grows fun e k he _ => by simpa using he
      exact noted.forget fun r hr => (left r).mp hr

/-- A decision for this member is adopted, whatever has become of its message here. -/
theorem follow (seat : Seat roster H p log n) (ledger : Ledger roster H) {d : Decision}
    {l : List MemberId} (decided : .decided d l ∈ H) (listed : p ∈ l) :
    Advance roster H [.learned p d] p (log ++ (n.agreement.adopt d).2)
      { n with agreement := (n.agreement.adopt d).1 } := by
  have frame := n.agreement.adopt_frame d
  have grows : ∀ e ∈ H, e ∈ H ++ [.learned p d] := fun e he => List.mem_append_left _ he
  obtain ⟨orderly, blocked, answering⟩ :=
    seat.orderly.adopted seat.blocked seat.answering ledger decided listed
  constructor
  · intro e he
    rw [List.mem_singleton.mp he]
    rfl
  · exact ledger.append seat.member ⟨l, decided, listed⟩
  · constructor
    case member => exact seat.member
    case group => exact seat.group
    case self => exact frame.1.trans seat.self
    case live =>
      intro r
      rw [frame.2.1, seat.live]
      simp
    case orderly => exact orderly
    case blocked => exact blocked
    case answering => exact answering
    case polling =>
      refine (seat.polling.mono grows (fun k hk _ => ?_) fun e k he _ => ?_).frame frame
      · simpa using hk
      · simpa using he
    case publishing =>
      rw [frame.2.1]
      exact seat.publishing.mono grows fun e k he _ => by simpa using he

theorem node_self (seat : Seat roster H p log n) : n.self = p := by
  rw [Node.self, seat.group]
  rfl

theorem multicast (seat : Seat roster H p log n) (ledger : Ledger roster H) {payload : UInt32}
    {k : Node} {delivered : List Message} (ok : n.multicast payload = .ok (k, delivered)) :
    Advance roster H (n.multicastEvents payload) p (log ++ delivered) k := by
  rcases n.multicast_cases payload with ⟨e, -, failed⟩ |
    ⟨m, number, settlement, created, own, -, next, above, rfl, result⟩
  · rw [failed] at ok
    cases ok
  · rw [result] at ok
    obtain ⟨rfl, rfl⟩ := Prod.mk.inj (Except.ok.inj ok)
    have drafted := seat.draft ledger own next above
    have concluded := drafted.seat.conclude drafted.ledger m.id
    rw [Node.multicastEvents, created, seat.node_self, ← Agreement.eq_of_after? above]
    exact drafted.trans concluded

theorem remove (seat : Seat roster H p log n) (ledger : Ledger roster H) (other : MemberId) :
    Advance roster H (n.removeEvents other) p (log ++ (n.remove other).2) (n.remove other).1 := by
  rcases n.remove_cases other with ⟨idle, unchanged, result⟩ | ⟨foreign, unchanged, result⟩
  · have left : ∀ r, r ∈ n.agreement.live ↔ r ∈ n.agreement.live ∧ (r ≠ other ∨ r = p) := by
      have self := seat.self
      grind
    rw [Node.removeEvents, unchanged, result, seat.node_self, List.append_nil]
    exact seat.removed ledger left
  · have left : ∀ r, r ∈ n.agreement.live.erase other ↔
        r ∈ n.agreement.live ∧ (r ≠ other ∨ r = p) := by
      have self := seat.self
      intro r
      rw [Roll.mem_erase]
      grind
    have without := seat.removed ledger left
    rw [Node.removeEvents, unchanged, result, seat.node_self]
    exact without.trans (without.seat.concludeAll without.ledger _)

/-- An answer that is given again was noted before. -/
theorem again (seat : Seat roster H p log n) (ledger : Ledger roster H) {x : Proposal}
    (own : x.stamp.proposer = p) (proposed : .proposed x ∈ H) :
    Advance roster H [.proposed x] p log n := by
  have same : ∀ e, e ∈ H ++ [.proposed x] ↔ e ∈ H := by grind
  constructor
  · intro e he
    rw [List.mem_singleton.mp he]
    exact own
  · exact ledger.append (seat.placed own) (.inl proposed)
  · exact seat.mono (fun e he => (same e).mpr he) fun e he _ => (same e).mp he

/-- The answer to a message, old or new, is a true proposal. -/
theorem propose (seat : Seat roster H p log n) (ledger : Ledger roster H) {m : Message}
    (sent : .sent m ∈ H) :
    Advance roster H ((n.agreement.propose m).2.map Event.proposed).toList p log
      { n with agreement := (n.agreement.propose m).1 } ∧
    ∀ x ∈ (n.agreement.propose m).2,
      .proposed x ∈ H ++ ((n.agreement.propose m).2.map Event.proposed).toList := by
  have noted : ∀ x ∈ (n.agreement.propose m).2,
      .proposed x ∈ H ++ ((n.agreement.propose m).2.map Event.proposed).toList := by
    intro x hx
    exact List.mem_append_right _ (by simp [Option.mem_def.mp hx])
  refine ⟨?_, noted⟩
  rcases n.agreement.propose_cases m with same | ⟨x, found, same⟩ |
    ⟨number, foreign, unanswered, undelivered, above, new⟩
  · rw [same]
    exact .still ledger seat
  · obtain ⟨-, own, proposed, -⟩ := seat.answering.genuine m.id x found
    rw [same]
    exact seat.again ledger own proposed
  · have answered := seat.answer ledger sent foreign unanswered undelivered above
    rw [new, seat.self]
    exact answered

theorem takeProposal (seat : Seat roster H p log n) (ledger : Ledger roster H) {x : Proposal}
    (proposed : .proposed x ∈ H) :
    Advance roster H (n.handleEvents (.proposal x)) p (log ++ (n.takeProposal x).2)
      (n.takeProposal x).1 := by
  rw [Node.takeProposal_eq, Node.handleEvents, Agreement.count_eq]
  cases awaited : (n.acknowledgeMessage x).2 with
  | true => exact (seat.tally proposed awaited).conclude ledger x.id
  | false =>
    have ignored := seat.ignore awaited
    simp only [Bool.false_eq_true, if_false, List.append_nil]
    exact .still ledger ignored

/-- A true record is handled by the rules, and what is replied to it is true. -/
theorem handle (seat : Seat roster H p log n) (ledger : Ledger roster H) {r : Record}
    (meant : r.Meant H p) :
    Advance roster H (n.handleEvents r) p (log ++ (n.handle r).2.delivered) (n.handle r).1 ∧
      ∀ target answer, (n.handle r).2.reply = some (target, answer) →
        answer.Meant (H ++ n.handleEvents r) target := by
  cases r with
  | message m =>
    obtain ⟨advance, noted⟩ := seat.propose ledger meant
    change Advance roster H _ p (log ++ []) _ ∧ _
    rw [List.append_nil]
    refine ⟨advance, fun target answer reply => ?_⟩
    obtain ⟨x, hx, same⟩ := Option.map_eq_some_iff.mp reply
    cases same
    exact noted x hx
  | proposal x => exact ⟨seat.takeProposal ledger meant, fun _ _ none => by cases none⟩
  | decision d =>
    obtain ⟨l, decided, listed⟩ := meant
    have signer : (n.agreement.adopt d).1.self = p := (n.agreement.adopt_frame d).1.trans seat.self
    have receipt : (n.handle (.decision d)).2.reply =
        some (d.id.sender, .receipt ⟨d.id, (n.agreement.adopt d).1.self⟩) := rfl
    rw [receipt, signer, Node.handleEvents, seat.node_self]
    refine ⟨seat.follow ledger decided listed, fun target answer reply => ?_⟩
    cases reply
    exact ⟨d.stamp, List.mem_concat_self⟩
  | receipt r =>
    obtain ⟨s, learned⟩ := meant
    change Advance roster H [] p (log ++ []) _ ∧ _
    rw [List.append_nil]
    exact ⟨.still ledger (seat.confirm ledger learned), fun _ _ none => by cases none⟩
  | marker sender => cases meant

end Seat

end Concord
