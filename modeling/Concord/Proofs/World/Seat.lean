import Concord.Proofs.Node.Basic
import Concord.Proofs.World.Orderly
import Concord.Proofs.World.Sending

/-!
Everything that holds of one member, measured against the history. It speaks about the history only
through what happened at the member itself, so it survives whatever happens elsewhere.
-/

namespace Concord

/-- A member answers every foreign message that waits, always with the same proposal, and remembers
what it delivered. -/
structure Answering (H : List Event) (p : MemberId) (log : List Message) (a : Agreement) :
    Prop where
  genuine : ∀ id x, a.answers.get? id = some x →
    x.id = id ∧ x.stamp.proposer = p ∧ .proposed x ∈ H ∧ id ∈ a.queue.waiting
  complete : ∀ id ∈ a.queue.waiting, id.sender ≠ p → ∃ x, a.answers.get? id = some x
  seen : ∀ m ∈ log, a.hasDelivered m.id = true

namespace Answering

variable {H K : List Event} {p : MemberId} {log : List Message} {a : Agreement}

theorem start (p : MemberId) (members : List MemberId) :
    Answering [] p [] (.start p members) where
  genuine _ _ h := by cases h
  complete _ h := by cases h
  seen _ h := by cases h

theorem mono (h : Answering H p log a) (grows : ∀ e ∈ H, e ∈ K) : Answering K p log a where
  genuine id x found :=
    have ⟨about, own, proposed, waits⟩ := h.genuine id x found
    ⟨about, own, grows _ proposed, waits⟩
  complete := h.complete
  seen := h.seen

theorem draft (h : Answering H p log a) {m : Message} (own : m.id.sender = p)
    (absent : m.id ∉ a.queue.waiting) (number : UInt32) :
    Answering H p log (a.drafted m number) := by
  have waiting : (a.drafted m number).queue.waiting = a.queue.waiting ++ [m.id] := by
    rw [Agreement.drafted, HoldBack.add_eq _ absent]
  have same : (a.drafted m number).answers = a.answers := rfl
  obtain ⟨genuine, complete, seen⟩ := h
  refine ⟨?_, ?_, seen⟩ <;> grind

theorem answer (h : Answering H p log a) {m : Message} (absent : m.id ∉ a.queue.waiting)
    {number : UInt32} (proposed : .proposed ⟨m.id, ⟨number, p⟩⟩ ∈ H) (self : a.self = p) :
    Answering H p log (a.answered m number) := by
  have waiting : (a.answered m number).queue.waiting = a.queue.waiting ++ [m.id] := by
    rw [Agreement.answered, HoldBack.add_eq _ absent]
  have answers : ∀ id, (a.answered m number).answers.get? id =
      if m.id = id then some ⟨m.id, ⟨number, p⟩⟩ else a.answers.get? id :=
    fun id => self ▸ Table.get?_put _ _ _ _
  have here := (answers m.id).trans (if_pos rfl)
  obtain ⟨genuine, complete, seen⟩ := h
  refine ⟨?_, ?_, seen⟩ <;> grind

theorem adopt (h : Answering H p log a) (sound : a.queue.Sound) (d : Decision) :
    Answering H p (log ++ (a.adopt d).2) (a.adopt d).1 := by
  have waiting : ∀ id, id ∈ (a.adopt d).1.queue.waiting ↔
      id ∈ a.queue.waiting ∧ id ∉ (a.adopt d).2.map Message.id := by
    intro id
    rw [Agreement.adopt_queue sound, Agreement.adopt_snd sound]
    exact HoldBack.mem_waiting_adopt sound d
  have answers := Agreement.adopt_answers sound d
  have recorded : ∀ id, id ∈ (a.adopt d).2.map Message.id ∨ a.hasDelivered id = true →
      (a.adopt d).1.hasDelivered id = true := fun id => Agreement.hasDelivered_adopt sound d
  obtain ⟨genuine, complete, seen⟩ := h
  constructor <;> grind

end Answering

/-- What a member holds of its queue, its deliveries and its answers survives any decision that was
made for it. -/
theorem Orderly.adopted {roster : Roster} {H : List Event} {p : MemberId} {log : List Message}
    {a : Agreement} (orderly : Orderly H p log a.latest a.queue) (blocked : a.queue.Blocked)
    (answering : Answering H p log a) (ledger : Ledger roster H) {d : Decision}
    {l : List MemberId} (decided : .decided d l ∈ H) (listed : p ∈ l) :
    Orderly (H ++ [.learned p d]) p (log ++ (a.adopt d).2) (a.adopt d).1.latest
      (a.adopt d).1.queue ∧
    (a.adopt d).1.queue.Blocked ∧
    Answering (H ++ [.learned p d]) p (log ++ (a.adopt d).2) (a.adopt d).1 := by
  have sound := orderly.sound
  refine ⟨?_, ?_, ?_⟩
  · rw [Agreement.adopt_latest, Agreement.adopt_queue sound, Agreement.adopt_snd sound]
    exact orderly.adopt ledger decided listed
  · rw [Agreement.adopt_queue sound]
    exact HoldBack.blocked_adopt blocked d
  · exact (answering.mono fun e he => List.mem_append_left _ he).adopt sound d

structure Seat (roster : Roster) (H : List Event) (p : MemberId) (log : List Message) (n : Node) :
    Prop where
  member : p ∈ roster.ids
  group : n.group = roster.group p
  self : n.agreement.self = p
  live : ∀ r, r ∈ n.agreement.live ↔ r ∈ roster.ids ∧ (r = p ∨ .removed p r ∉ H)
  orderly : Orderly H p log n.agreement.latest n.agreement.queue
  blocked : n.agreement.queue.Blocked
  answering : Answering H p log n.agreement
  polling : Polling H n.agreement n.messages
  publishing : Publishing H p n.agreement.live n.decisions

namespace Seat

variable {roster : Roster} {H K : List Event} {p : MemberId} {log : List Message} {n : Node}

theorem start (member : p ∈ roster.ids) (faults : Faults) :
    Seat roster [] p [] ⟨roster.group p, faults, .start p roster.ids, .empty, .empty⟩ where
  member := member
  group := rfl
  self := rfl
  live r := by
    have known : r ∈ (Roll.ofList roster.ids).insert p ↔ r = p ∨ r ∈ roster.ids := by
      rw [Roll.mem_insert, Roll.mem_ofList]
    refine known.trans ⟨fun h => ⟨?_, .inr List.not_mem_nil⟩, fun h => .inr h.1⟩
    exact h.elim (fun here => here ▸ member) fun listed => listed
  orderly := .start p 0
  blocked none := absurd rfl none
  answering := .start p roster.ids
  polling := .start p roster.ids
  publishing := .start p _

theorem self_mem_live (h : Seat roster H p log n) : n.agreement.self ∈ n.agreement.live :=
  h.self ▸ (h.live p).mpr ⟨h.member, .inl rfl⟩

theorem placed (h : Seat roster H p log n) {e : Event} (here : e.place = p) :
    e.place ∈ roster.ids :=
  here ▸ h.member

/-- What happens at other members does not matter. -/
theorem mono (h : Seat roster H p log n) (grows : ∀ e ∈ H, e ∈ K)
    (own : ∀ e ∈ K, e.place = p → e ∈ H) : Seat roster K p log n where
  member := h.member
  group := h.group
  self := h.self
  live r := by
    have same : .removed p r ∈ K ↔ .removed p r ∈ H := ⟨fun hr => own _ hr rfl, grows _⟩
    rw [h.live, same]
  orderly := h.orderly.mono grows (fun _ hx here => own _ hx here) fun _ hd => own _ hd rfl
  blocked := h.blocked
  answering := h.answering.mono grows
  polling := h.polling.mono grows (fun _ hm here => own _ hm (here.trans h.self))
    fun _ _ hd here => own _ hd (here.trans h.self)
  publishing := h.publishing.mono grows fun _ _ hd here => own _ hd here

end Seat

/-- A step of one member notes only what happened there, and keeps to the rules. -/
structure Advance (roster : Roster) (H events : List Event) (p : MemberId) (log : List Message)
    (n : Node) : Prop where
  own : ∀ e ∈ events, e.place = p
  ledger : Ledger roster (H ++ events)
  seat : Seat roster (H ++ events) p log n

namespace Advance

variable {roster : Roster} {H events more : List Event} {p : MemberId} {log : List Message}
  {n : Node}

theorem still (ledger : Ledger roster H) (seat : Seat roster H p log n) :
    Advance roster H [] p log n := by
  constructor
  · intro e he
    cases he
  · rwa [List.append_nil]
  · rwa [List.append_nil]

theorem trans {k : Node} {log' : List Message} (first : Advance roster H events p log n)
    (then_ : Advance roster (H ++ events) more p log' k) :
    Advance roster H (events ++ more) p log' k := by
  constructor
  · intro e he
    exact (List.mem_append.mp he).elim (first.own e) (then_.own e)
  · rw [← List.append_assoc]
    exact then_.ledger
  · rw [← List.append_assoc]
    exact then_.seat

end Advance

namespace Seat

variable {roster : Roster} {H : List Event} {p : MemberId} {log : List Message} {n : Node}

section Decision

variable {id : MessageId} {b : Ballot} {s : Stamp} (found : n.agreement.ballots.get? id = some b)
  (whole : ∀ r ∈ n.agreement.live, ∃ k, b.get? r = some k)

include found whole

/-- A decision is at least what everyone live has proposed. -/
theorem ledger_decided (seat : Seat roster H p log n) (ledger : Ledger roster H)
    (won : b.winner? = some s) :
    Ledger roster (H ++ [.decided ⟨id, s⟩ n.agreement.live.toList]) := by
  have own : id.sender = p := seat.self ▸ seat.polling.ballot_own id b found
  have proposed := seat.polling.cast_proposed id b found
  refine ledger.append (seat.placed own)
    ⟨seat.polling.undecided id b found, ?_, fun r hr => ?_, fun r hr kept => ?_⟩
  · exact proposed _ _ (Ballot.get?_winner won)
  · obtain ⟨k, cast⟩ := whole r hr
    exact ⟨k, proposed r k cast, Ballot.le_winner won cast⟩
  · exact (seat.live r).mpr ⟨hr, own ▸ kept⟩

/-- The member that decides adopts its decision at once and owes it to all others. -/
theorem decided (seat : Seat roster H p log n)
    (ledger : Ledger roster (H ++ [.decided ⟨id, s⟩ n.agreement.live.toList])) :
    Seat roster (H ++ [.decided ⟨id, s⟩ n.agreement.live.toList] ++ [.learned p ⟨id, s⟩]) p
      (log ++ ((n.agreement.closed id).adopt ⟨id, s⟩).2)
      { n with
        agreement := ((n.agreement.closed id).adopt ⟨id, s⟩).1
        decisions := n.decisions.put ⟨id, s⟩ n.agreement.others } := by
  have frame := (n.agreement.closed id).adopt_frame ⟨id, s⟩
  have own : id.sender = p := seat.self ▸ seat.polling.ballot_own id b found
  have announced : .decided ⟨id, s⟩ n.agreement.live.toList ∈
      H ++ [.decided ⟨id, s⟩ n.agreement.live.toList] := List.mem_concat_self
  have listed : p ∈ n.agreement.live.toList := seat.self ▸ seat.self_mem_live
  have grows : ∀ e ∈ H, e ∈ H ++ [.decided ⟨id, s⟩ n.agreement.live.toList] :=
    fun e he => List.mem_append_left _ he
  have before := seat.orderly.mono grows (fun x hx _ => by simpa using hx)
    fun d hd => by simpa using hd
  have closed : Answering H p log (n.agreement.closed id) :=
    ⟨seat.answering.genuine, seat.answering.complete, seat.answering.seen⟩
  obtain ⟨orderly, blocked, answering⟩ :=
    Orderly.adopted (a := n.agreement.closed id) before seat.blocked (closed.mono grows) ledger
      announced listed
  constructor
  case member => exact seat.member
  case group => exact seat.group
  case self => exact frame.1.trans seat.self
  case live =>
    intro r
    have same : Event.removed p r ∈ H ++ [.decided ⟨id, s⟩ n.agreement.live.toList] ++
        [.learned p ⟨id, s⟩] ↔ .removed p r ∈ H := by simp
    rw [same, ← seat.live]
    exact iff_of_eq (congrArg (r ∈ ·) frame.2.1)
  case orderly => exact orderly
  case blocked => exact blocked
  case answering => exact answering
  case polling =>
    have closed := seat.polling.close found whole s n.agreement.live.toList
    rw [seat.self] at closed
    exact closed.frame frame
  case publishing =>
    have owed := seat.publishing.publish (d := ⟨id, s⟩) (seat.polling.undecided id b found) own
    rw [frame.2.1, Agreement.others, seat.self]
    exact owed

end Decision

/-- Concluding a ballot decides it if it is complete, and changes nothing otherwise. -/
theorem conclude (seat : Seat roster H p log n) (ledger : Ledger roster H) (id : MessageId) :
    Advance roster H
      ((n.agreement.decide? id).1.verdicts (n.agreement.decide? id).2.toList) p
      (log ++ (n.conclude id).2) (n.conclude id).1 := by
  rw [Node.conclude_eq]
  rcases n.agreement.decide?_cases seat.self_mem_live id with
    ⟨same, -⟩ | ⟨b, s, found, whole, won, result⟩
  · rw [same]
    change Advance roster H [] p (log ++ []) n
    rw [List.append_nil]
    exact .still ledger seat
  · have frame := (n.agreement.closed id).adopt_frame ⟨id, s⟩
    have ledger' := seat.ledger_decided found whole ledger won
    have seat' := seat.decided found whole ledger'
    rw [result]
    change Advance roster H [.decided ⟨id, s⟩ ((n.agreement.closed id).adopt ⟨id, s⟩).1.live.toList,
      .learned ((n.agreement.closed id).adopt ⟨id, s⟩).1.self ⟨id, s⟩] p
      (log ++ (((n.agreement.closed id).adopt ⟨id, s⟩).2 ++ [])) _
    rw [frame.2.1, frame.1, List.append_nil]
    change Advance roster H [.decided ⟨id, s⟩ n.agreement.live.toList,
      .learned n.agreement.self ⟨id, s⟩] p _ _
    rw [seat.self]
    constructor
    · intro e he
      rcases List.mem_pair.mp he with rfl | rfl
      · exact seat.self ▸ seat.polling.ballot_own id b found
      · rfl
    · rw [List.append_cons]
      refine ledger'.append seat.member ⟨_, List.mem_concat_self, ?_⟩
      exact seat.self ▸ seat.self_mem_live
    · rw [List.append_cons]
      exact seat'

theorem concludeAll (seat : Seat roster H p log n) (ledger : Ledger roster H)
    (ids : List MessageId) :
    Advance roster H
      ((n.agreement.decideAll ids).1.verdicts (n.agreement.decideAll ids).2) p
      (log ++ (n.concludeAll ids).2) (n.concludeAll ids).1 := by
  induction ids generalizing n H log with
  | nil =>
    change Advance roster H [] p (log ++ []) n
    rw [List.append_nil]
    exact .still ledger seat
  | cons id rest ih =>
    have first := seat.conclude ledger id
    have later := ih first.seat first.ledger
    have agreement : (n.conclude id).1.agreement = (n.agreement.decide? id).1 := by
      rw [Node.conclude_eq]
    obtain ⟨self, live⟩ := (n.agreement.decide? id).1.decideAll_frame rest
    have events : (n.agreement.decideAll (id :: rest)).1.verdicts
          (n.agreement.decideAll (id :: rest)).2 =
        (n.agreement.decide? id).1.verdicts (n.agreement.decide? id).2.toList ++
          ((n.conclude id).1.agreement.decideAll rest).1.verdicts
            ((n.conclude id).1.agreement.decideAll rest).2 := by
      simp only [agreement, Agreement.decideAll, Agreement.verdicts, List.flatMap_append, self, live]
    rw [events]
    have both := first.trans later
    rw [List.append_assoc] at both
    exact both

end Seat

end Concord
