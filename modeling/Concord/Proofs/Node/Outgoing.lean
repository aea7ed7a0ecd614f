import Concord.Proofs.Node.Alignment
import Concord.Proofs.Order.Settling

/-!
What a member has still to send, however its calls are interleaved. It owes nothing to itself, and
no message is decided twice, so a receipt is about one decision only.
-/

namespace Concord

namespace Duty

/-- The decisions that the call has still to publish. -/
def rest : Duty → List Settlement
  | .put _ rest => rest
  | .forgetMessages _ rest => rest
  | .forgetDecisions _ rest => rest
  | .publish rest => rest

end Duty

namespace Desk

/-- The messages whose decisions are sent or about to be published. -/
def decided (d : Desk) : List MessageId := d.node.decisions.inFlight ++ d.duty.rest.map Settlement.id

structure Outgoing (d : Desk) : Prop where
  owed_others : ∀ m r, d.node.messages.Owes m r → r ≠ d.node.agreement.self
  announced_others : ∀ e r, d.node.decisions.Owes e r → r ≠ d.node.agreement.self
  awaited : ∀ x ∈ d.node.decisions.parcels, ∃ r, r ∈ x.waiting
  distinct : d.decided.Nodup
  closed : ∀ id ∈ d.decided,
    d.node.agreement.ballots.get? id = none ∧ id.number ≤ d.node.agreement.created

namespace Outgoing

variable {d d' : Desk}

theorem start (g : Group) (faults : Faults) :
    (Desk.start ⟨g, faults, .start g.self g.ids, .empty, .empty⟩).Outgoing where
  owed_others m r owes := absurd owes (Outbox.not_owes_empty m r)
  announced_others e r owes := absurd owes (Outbox.not_owes_empty e r)
  awaited _ hx := by cases hx
  distinct := .nil
  closed _ hid := by cases hid

theorem sound (h : d.Outgoing) : d.node.decisions.Sound :=
  ⟨(List.nodup_append.mp h.distinct).1, h.awaited⟩

/-- Where nothing is decided, at most something that was decided before is published, confirmed or
forgotten, and only other members are asked. -/
theorem onward (h : d.Outgoing) (self : d'.node.agreement.self = d.node.agreement.self)
    (created : d'.node.agreement.created = d.node.agreement.created)
    (ballots : d'.node.agreement.ballots = d.node.agreement.ballots)
    (owed : ∀ m r, d'.node.messages.Owes m r →
      d.node.messages.Owes m r ∨ r ≠ d.node.agreement.self)
    (announced : ∀ e r, d'.node.decisions.Owes e r →
      d.node.decisions.Owes e r ∨ r ≠ d.node.agreement.self)
    (awaited : ∀ x ∈ d'.node.decisions.parcels, ∃ r, r ∈ x.waiting)
    (decided : d'.decided.Sublist d.decided) : d'.Outgoing where
  owed_others m r owes := by
    rw [self]
    exact (owed m r owes).elim (h.owed_others m r) id
  announced_others e r owes := by
    rw [self]
    exact (announced e r owes).elim (h.announced_others e r) id
  awaited := awaited
  distinct := h.distinct.sublist decided
  closed id hid := by
    rw [ballots, created]
    exact h.closed id (decided.subset hid)

/-- A call that has the lock changes some ballots and then takes decisions. -/
theorem settle (h : d.Outgoing) (free : d.duty = .free) {b a : Agreement} (coherent : b.Coherent)
    (self : b.self = d.node.agreement.self)
    (created : d.node.agreement.created ≤ b.created)
    (closed : ∀ id, d.node.agreement.ballots.get? id = none →
      id.number ≤ d.node.agreement.created → b.ballots.get? id = none)
    {settlements : List Settlement} (settles : b.Settles a settlements) {duty : Duty}
    (rest : duty.rest = settlements) (halves : List Proposal) :
    Desk.Outgoing { d with node := { d.node with agreement := a }, duty, halves } := by
  have before : d.decided = d.node.decisions.inFlight := by
    rw [decided, free]
    exact List.append_nil _
  have still : ∀ id ∈ d.node.decisions.inFlight,
      b.ballots.get? id = none ∧ id.number ≤ b.created := by
    intro id hid
    obtain ⟨none, numbered⟩ := h.closed id (before ▸ hid)
    exact ⟨closed id none numbered, UInt32.le_trans numbered created⟩
  have own : a.self = d.node.agreement.self := settles.self.trans self
  constructor
  case owed_others =>
    intro m r owes
    change r ≠ a.self
    rw [own]
    exact h.owed_others m r owes
  case announced_others =>
    intro e r owes
    change r ≠ a.self
    rw [own]
    exact h.announced_others e r owes
  case awaited => exact h.awaited
  case distinct =>
    rw [decided, rest]
    refine List.nodup_append.mpr ⟨before ▸ h.distinct, settles.distinct, fun id old k new same => ?_⟩
    obtain ⟨s, hs, rfl⟩ := List.mem_map.mp new
    exact settles.opened s hs (same ▸ (still id old).1)
  case closed =>
    rw [decided, rest]
    intro id hid
    change a.ballots.get? id = none ∧ id.number ≤ a.created
    rw [settles.created]
    rcases List.mem_append.mp hid with old | new
    · obtain ⟨none, numbered⟩ := still id old
      exact ⟨settles.stays_closed id none, numbered⟩
    · obtain ⟨s, hs, rfl⟩ := List.mem_map.mp new
      obtain ⟨ballot, open_⟩ := Option.ne_none_iff_exists'.mp (settles.opened s hs)
      exact ⟨settles.closes s hs, (coherent.ballot_own s.id ballot open_).2.2⟩

theorem create (h : d.Outgoing) (coherent : d.node.agreement.Coherent) (free : d.duty = .free)
    {payload : UInt32} {a : Agreement} {m : Message} {s : Option Settlement}
    (ok : d.node.agreement.create payload = .ok (a, m, s)) : (d.create a m s).Outgoing := by
  obtain ⟨created, number, hc, hn, rfl, same⟩ := Agreement.create_eq_ok ok
  obtain rfl : a = _ := congrArg Prod.fst same
  obtain rfl : s = _ := congrArg Prod.snd same
  have drafted := coherent.drafted (m := ⟨⟨d.node.agreement.self, created⟩, payload⟩) rfl hc hn
  refine h.settle free drafted rfl (UInt32.le_of_lt (Agreement.lt_after hc (UInt32.le_refl _)))
    ?_ (Agreement.settles_decide? drafted.self_live _) rfl d.halves
  intro id closed numbered
  have lt := Agreement.lt_after hc numbered
  have other : (⟨d.node.agreement.self, created⟩ : MessageId) ≠ id := by
    rintro rfl
    exact UInt32.lt_irrefl _ lt
  exact ((Table.get?_put _ _ _ _).trans (if_neg other)).trans closed

theorem count (h : d.Outgoing) (coherent : d.node.agreement.Coherent) (free : d.duty = .free)
    (x : Proposal) : (d.count x).Outgoing := by
  obtain ⟨self, live⟩ := d.node.agreement.tallied_frame x
  have tallied := coherent.tallied x
  have counted : d.node.agreement.count x = (d.node.agreement.tallied x).decide? x.id :=
    Agreement.count_eq _ _
  rw [Desk.count, counted]
  refine h.settle free tallied self ?_ ?_ (Agreement.settles_decide? tallied.self_live x.id) rfl
    (d.halves.erase x)
  · unfold Agreement.tallied
    split <;> exact UInt32.le_refl _
  · intro id closed _
    unfold Agreement.tallied
    split
    · exact closed
    · rename_i b open_
      have other : x.id ≠ id := fun same => Option.some_ne_none b (open_.symm.trans (same ▸ closed))
      exact ((Table.get?_put _ _ _ _).trans (if_neg other)).trans closed

theorem remove (h : d.Outgoing) (coherent : d.node.agreement.Coherent) (free : d.duty = .free)
    (other : MemberId) : (d.remove other).Outgoing := by
  rw [Desk.remove]
  by_cases idle : other = d.node.agreement.self ∨ other ∉ d.node.agreement.live
  · have same : d.node.agreement.remove other = (d.node.agreement, []) := if_pos idle
    rw [same]
    exact h.settle free coherent rfl (UInt32.le_refl _) (fun _ closed _ => closed)
      (Agreement.settles_nothing _) rfl d.halves
  · have drops : d.node.agreement.remove other =
        (d.node.agreement.without other).decideAll d.node.agreement.ballots.keys := if_neg idle
    have left := coherent.without fun self => idle (.inl self)
    rw [drops]
    exact h.settle free left rfl (UInt32.le_refl _) (fun _ closed _ => closed)
      (Agreement.settles_decideAll left.self_live _) rfl d.halves

theorem put (h : d.Outgoing) {m : Message} {rest : List Settlement} (duty : d.duty = .put m rest) :
    (d.put m rest).Outgoing := by
  refine h.onward rfl rfl rfl ?_ (fun _ _ => .inl) h.awaited ?_
  · intro k r owes
    exact (Outbox.owes_put.mp owes).imp_right fun new => (Agreement.mem_others.mp new.2).2
  · rw [decided, decided, duty]
    exact .refl _

theorem forgetMessages (h : d.Outgoing) {other : MemberId} {rest : List Settlement}
    (duty : d.duty = .forgetMessages other rest) : (d.forgetMessages other rest).Outgoing := by
  refine h.onward rfl rfl rfl ?_ (fun _ _ => .inl) h.awaited ?_
  · exact fun m r owes => .inl (Outbox.owes_forget.mp owes).1
  · rw [decided, decided, duty]
    exact .refl _

theorem forgetDecisions (h : d.Outgoing) {other : MemberId} {rest : List Settlement}
    (duty : d.duty = .forgetDecisions other rest) : (d.forgetDecisions other rest).Outgoing := by
  refine h.onward rfl rfl rfl (fun _ _ => .inl) ?_ (Outbox.sound_forget h.sound other).awaited ?_
  · exact fun e r owes => .inl (Outbox.owes_forget.mp owes).1
  · rw [decided, decided, duty]
    exact (Outbox.inFlight_without (Outbox.forget_eq _ other)).append_right _

theorem publish (h : d.Outgoing) {s : Settlement} {rest : List Settlement}
    (duty : d.duty = .publish (s :: rest)) : (d.publish s rest).Outgoing := by
  have before : d.decided = d.node.decisions.inFlight ++ s.id :: rest.map Settlement.id := by
    rw [decided, duty]
    rfl
  refine h.onward rfl rfl rfl (fun _ _ => .inl) ?_ (Outbox.awaited_put h.awaited _ _) ?_
  · intro e r owes
    exact (Outbox.owes_put.mp owes).imp_right fun new => (Agreement.mem_others.mp new.2).2
  · rw [before]
    change ((d.node.decisions.put s.decision d.node.agreement.others).inFlight ++
      rest.map Settlement.id).Sublist _
    rcases d.node.decisions.inFlight_put s.decision d.node.agreement.others with same | behind
    · rw [same]
      exact (List.sublist_cons_self _ _).append_left _
    · rw [behind, List.append_assoc]
      exact .refl _

theorem work (h : d.Outgoing) : d.work.Outgoing := by
  unfold Desk.work
  split
  · rename_i duty
    exact h.put duty
  · rename_i duty
    exact h.forgetMessages duty
  · rename_i duty
    exact h.forgetDecisions duty
  · exact h
  · rename_i duty
    exact h.publish duty

/-- Replies take something off the outboxes, and the other records do not concern them. -/
theorem handle (h : d.Outgoing) {r : Record} (other : r.kind ≠ .proposal) (log : List Message) :
    Desk.Outgoing { d with node := (d.node.handle r).1, log } := by
  cases r with
  | message m =>
    obtain ⟨self, -, created, ballots⟩ := d.node.agreement.propose_frame m
    exact h.onward self created ballots (fun _ _ => .inl) (fun _ _ => .inl) h.awaited (.refl _)
  | proposal x => exact absurd rfl other
  | decision e =>
    obtain ⟨self, -, created, ballots⟩ := d.node.agreement.adopt_frame e
    exact h.onward self created ballots (fun _ _ => .inl) (fun _ _ => .inl) h.awaited (.refl _)
  | receipt r =>
    have left := Outbox.acknowledge_eq h.sound r.id r.signer
    exact h.onward rfl rfl rfl (fun _ _ => .inl) (fun _ _ owes => .inl (Outbox.owes_of_acknowledge owes))
      (Outbox.sound_acknowledge h.sound r.id r.signer).awaited
      ((Outbox.inFlight_without left).append_right _)
  | marker sender =>
    exact h.onward rfl rfl rfl (fun _ _ => .inl) (fun _ _ => .inl) h.awaited (.refl _)

theorem receive (h : d.Outgoing) (r : Record) : (d.receive r).Outgoing := by
  rcases d.receive_cases r with ⟨x, rfl⟩ | same | ⟨other, handled⟩
  · exact h.onward rfl rfl rfl (fun _ _ owes => .inl (Outbox.owes_of_acknowledge owes))
      (fun _ _ => .inl) h.awaited (.refl _)
  · rw [same]
    exact h
  · rw [handled]
    exact h.handle other _

theorem turn (h : d.Outgoing) (coherent : d.node.agreement.Coherent) (t : Turn) :
    (d.turn t).Outgoing := by
  cases t with
  | multicast payload =>
    dsimp only [Desk.turn]
    split
    · exact h
    · rename_i created
      split
      · rename_i free
        exact h.create coherent (Duty.isFree_iff.mp free) created
      · exact h
  | remove other =>
    dsimp only [Desk.turn]
    split
    · rename_i free
      exact h.remove coherent (Duty.isFree_iff.mp free) other
    · exact h
  | receive r => exact h.receive r
  | count x =>
    dsimp only [Desk.turn]
    split
    · rename_i ready
      exact h.count coherent (Duty.isFree_iff.mp ready.1) x
    · exact h
  | work => exact h.work

end Outgoing

theorem group_turn (d : Desk) (t : Turn) : (d.turn t).node.group = d.node.group := by
  cases t with
  | multicast payload =>
    dsimp only [turn]
    split
    · rfl
    · split <;> rfl
  | remove other =>
    dsimp only [turn]
    split <;> rfl
  | receive r =>
    rcases d.receive_cases r with ⟨x, rfl⟩ | same | ⟨-, handled⟩
    · rfl
    · exact congrArg (fun d => d.node.group) same
    · exact (congrArg (fun d => d.node.group) handled).trans (d.node.handle_frame r).1
  | count x =>
    dsimp only [turn]
    split <;> rfl
  | work =>
    dsimp only [turn, work]
    split <;> rfl

/-- A member of a group at work. -/
structure Regular (g : Group) (d : Desk) : Prop where
  group : d.node.group = g
  self : d.node.agreement.self = g.self
  coherent : d.node.agreement.Coherent
  stalled : d.node.Stalled
  aligned : d.Aligned
  outgoing : d.Outgoing

theorem Regular.turn {g : Group} {d : Desk} (h : d.Regular g) (t : Turn) : (d.turn t).Regular g where
  group := (d.group_turn t).trans h.group
  self := (d.change_turn t).self.trans h.self
  coherent := h.coherent.change (d.change_turn t)
  stalled := h.stalled.change h.coherent.self_live (d.change_turn t)
  aligned := h.aligned.turn h.coherent t
  outgoing := h.outgoing.turn h.coherent t

/-- However the calls of a member are interleaved, it stays regular. -/
theorem regular_run {settings : Settings} {g : Group} {n : Node}
    (started : Node.start settings g = .ok n) (turns : List Turn) :
    ((Desk.start n).run turns).Regular g := by
  have kept : ∀ d : Desk, d.Regular g → (d.run turns).Regular g := by
    induction turns with
    | nil => exact fun d h => h
    | cons t rest ih => exact fun d h => ih (d.turn t) (h.turn t)
  apply kept
  rw [Node.start_eq_ok started]
  exact ⟨rfl, rfl, .start _ _, fun id b none => (by cases none), .start g _, .start g _⟩

end Desk

end Concord
