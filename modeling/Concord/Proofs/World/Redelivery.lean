import Concord.Proofs.World.Absorbed
import Concord.Proofs.World.Run

/-!
The network may hand over a datagram again at any later time. Once its record was handled, it is
inert for good: it delivers nothing and changes nothing, and at most the reply of the first time is
sent again.
-/

namespace Concord

namespace Node

/-- Which datagram a reply becomes depends on the group alone. -/
theorem replies_congr {n k : Node} (group : n.group = k.group) {a b : Reaction}
    (reply : a.reply = b.reply) : n.replies a = k.replies b := by
  simp only [replies, letter?, self, group, reply]

theorem length_replies_le (n : Node) (reaction : Reaction) : (n.replies reaction).length ≤ 1 := by
  unfold replies
  split
  · exact Nat.zero_le 1
  · rename_i target r _
    cases n.letter? target r with
    | none => exact Nat.zero_le 1
    | some g => exact Nat.le_refl 1

/-- Messages are replied to with proposals and decisions with receipts, and nothing else is. -/
theorem reply_about {n : Node} (coherent : n.agreement.Coherent) {r : Record} {f : Datagram}
    (hf : f ∈ n.replies (n.handle r).2) : ∃ x, Record.decode f.bytes = .ok x ∧
      x.about? = r.about? ∧
      (r.kind = .message ∧ x.kind = .proposal ∨ r.kind = .decision ∧ x.kind = .receipt) := by
  obtain ⟨target, x, reply, -, bytes⟩ := mem_replies hf
  rw [bytes, Record.decode_encode]
  refine ⟨x, rfl, ?_⟩
  cases r with
  | message m =>
    obtain ⟨y, answer, same⟩ : ∃ y, (n.agreement.propose m).2 = some y ∧
        (m.id.sender, Record.proposal y) = (target, x) := Option.map_eq_some_iff.mp reply
    cases same
    have about : y.id = m.id := Agreement.about_of_propose coherent answer
    exact ⟨congrArg some about, .inl ⟨rfl, rfl⟩⟩
  | decision d =>
    cases reply
    exact ⟨rfl, .inr ⟨rfl, rfl⟩⟩
  | proposal x => cases reply
  | receipt r => cases reply
  | marker sender => cases reply

end Node

namespace World

variable {roster : Roster} {w v : World} {p q : MemberId}

theorem onward_change {n : Node} {delivered : List Message} {events : List Event}
    {mail : List Datagram} (onward : (w.node p).Onward n events) (q : MemberId) :
    (w.node q).Onward ((w.change p n delivered events mail).node q) events := by
  by_cases here : q = p
  · subst here
    simp only [change, Function.update_self]
    exact onward
  · simp only [change, Function.update_of_ne here]
    exact Node.onward_same _ _

theorem Step.onward (step : Step roster w v) (q : MemberId) :
    ∃ events, v.history = w.history ++ events ∧ (w.node q).Onward (v.node q) events := by
  have idle : ∃ events, w.history = w.history ++ events ∧ (w.node q).Onward (w.node q) events :=
    ⟨[], (List.append_nil _).symm, Node.onward_same _ _⟩
  cases step with
  | multicast member payload =>
    unfold World.multicast
    split
    · exact idle
    · rename_i ok
      exact ⟨_, rfl, onward_change (Node.onward_multicast ok) q⟩
  | @remove p member other => exact ⟨_, rfl, onward_change ((w.node p).onward_remove other) q⟩
  | @transmit p own target bytes here due =>
    exact ⟨[], rfl, onward_change ((w.node p).onward_same []) q⟩
  | @handOver p g posted here draws =>
    cases holds : Record.decode g.bytes with
    | error e =>
      rw [World.handOver]
      simp only [holds]
      exact idle
    | ok r =>
      rw [handOver_eq p holds]
      split
      · exact ⟨_, rfl, onward_change ((w.node p).onward_handle r) q⟩
      · exact idle

theorem Reachable.coherent (h : Reachable roster w) (member : p ∈ roster.ids) :
    (w.node p).agreement.Coherent := by
  induction h with
  | start fresh =>
    obtain ⟨settings, ok⟩ := fresh.started p member
    rw [Node.start_eq_ok ok]
    exact .start _ _
  | next _ step ih =>
    obtain ⟨events, -, onward⟩ := step.onward p
    exact ih.change onward.change

section Run

variable {r : Record} {reply : Option (MemberId × Record)} (member : p ∈ roster.ids)

include member

theorem absorbed_step (reachable : Reachable roster w) (step : Step roster w v)
    (meant : r.Meant w.history p) (absorbed : (w.node p).Absorbed w.history r reply) :
    r.Meant v.history p ∧ (v.node p).Absorbed v.history r reply := by
  have ledger := (Reachable.next reachable step).lawful.ledger
  obtain ⟨events, grown, onward⟩ := step.onward p
  rw [grown] at ledger ⊢
  exact ⟨meant.mono fun e he => List.mem_append_left _ he,
    absorbed.onward meant (reachable.coherent member) reachable.lawful.ledger ledger onward⟩

theorem absorbed_run (reachable : Reachable roster w) (meant : r.Meant w.history p)
    (absorbed : (w.node p).Absorbed w.history r reply) (actions : List Action) :
    r.Meant (w.run roster actions).history p ∧
      ((w.run roster actions).node p).Absorbed (w.run roster actions).history r reply := by
  induction actions generalizing w with
  | nil => exact ⟨meant, absorbed⟩
  | cons a rest ih =>
    rcases w.act_eq_or_step roster a with same | step
    · rw [run, List.foldl_cons, same]
      exact ih reachable meant absorbed
    · obtain ⟨meant', absorbed'⟩ := absorbed_step member reachable step meant absorbed
      exact ih (.next reachable step) meant' absorbed'

end Run

/-- If handling a record would leave a member as it is, so does a datagram that holds it. -/
theorem handOver_inert {g : Datagram} {r : Record} (holds : Record.decode g.bytes = .ok r)
    {reply : Option (MemberId × Record)}
    (inert : (v.node p).handle r = (v.node p, ⟨[], reply⟩)) (draws : Draws) :
    (v.handOver p g draws).node = v.node ∧ (v.handOver p g draws).log = v.log ∧
    (v.handOver p g draws).sent = v.sent ++
      if (v.node p).accepts draws g.source r then (v.node p).replies ⟨[], reply⟩ else [] := by
  rw [handOver_eq p holds, inert]
  split
  · simp [change, Function.update_eq_self]
  · simp

/-- A decision is always confirmed. -/
theorem Lawful.confirms (h : w.Lawful roster) (member : p ∈ roster.ids) {d : Decision}
    (meant : (Record.decision d).Meant w.history p) :
    (w.node p).replies ((w.node p).handle (.decision d)).2 ≠ [] := by
  have seat := h.seat p member
  obtain ⟨l, decided, -⟩ := meant
  obtain ⟨own, here⟩ := Roster.exists_addressOf member
  obtain ⟨other, there⟩ := Roster.exists_addressOf (h.ledger.placed _ decided)
  have sender : (w.node p).group.addressOf (w.node p).self = some own := by
    rw [seat.node_self, seat.group]
    exact here
  have target : (w.node p).group.addressOf d.id.sender = some other := by
    rw [seat.group]
    exact there
  simp [Node.handle, Node.replies, Node.letter?, sender, target]

/-- A marker has no effect on a cluster that runs. -/
theorem handOver_marker {g : Datagram} {sender : MemberId}
    (holds : Record.decode g.bytes = .ok (.marker sender)) (draws : Draws) :
    w.handOver p g draws = w := by
  rw [handOver_eq p holds]
  split
  · exact w.change_self p
  · rfl

theorem Reachable.handOver (reachable : w.Reachable roster) {g : Datagram}
    (here : roster.addressOf p = some g.target) {r : Record}
    (holds : Record.decode g.bytes = .ok r) (posted : g ∈ w.sent ∨ r.kind = .marker)
    (draws : Draws) : (w.handOver p g draws).Reachable roster := by
  rcases posted with posted | marker
  · exact .next reachable (.handOver posted here draws)
  · cases r with
    | marker sender =>
      rw [handOver_marker holds]
      exact reachable
    | _ => cases marker

/-- Once it was handled, a record has no effect any more, whatever has happened since. A marker
never had one. -/
theorem Reachable.inert (reachable : w.Reachable roster) {g : Datagram}
    (here : roster.addressOf p = some g.target) {r : Record}
    (holds : Record.decode g.bytes = .ok r) (posted : g ∈ w.sent ∨ r.kind = .marker)
    {draws : Draws} (taken : (w.node p).accepts draws g.source r = true) {rest : List Action}
    (run : v = (w.handOver p g draws).run roster rest) :
    (v.node p).handle r = (v.node p, ⟨[], if r ∈ (v.log p).map Record.message then none
      else ((w.node p).handle r).2.reply⟩) := by
  by_cases marker : r.kind = .marker
  · cases r with
    | marker sender =>
      change (v.node p, (⟨[], none⟩ : Reaction)) = (v.node p, ⟨[], if _ then none else none⟩)
      rw [ite_self]
    | _ => cases marker
  · have posted := posted.resolve_right marker
    have member := Roster.mem_ids_of_addressOf here
    have lawful := reachable.lawful
    have meant := lawful.meant posted here holds
    have next := reachable.handOver here holds (.inl posted) draws
    have handled := handOver_eq (w := w) p holds draws
    rw [if_pos taken] at handled
    have meant' : r.Meant (w.handOver p g draws).history p := by
      rw [handled]
      exact meant.mono fun e he => List.mem_append_left _ he
    have absorbed : ((w.handOver p g draws).node p).Absorbed (w.handOver p g draws).history r
        ((w.node p).handle r).2.reply := by
      rw [handled]
      simp only [change, Function.update_self]
      exact (lawful.seat p member).absorbed_handle meant
    have later : v.Reachable roster := run ▸ next.run rest
    obtain ⟨meantLater, absorbedLater⟩ := absorbed_run member next meant' absorbed rest
    rw [← run] at meantLater absorbedLater
    exact absorbedLater.handle_eq (later.lawful.seat p member) later.lawful.ledger
      (later.coherent member) meantLater

/-- A datagram that its destination has handled once, or one with a marker from the time before the
cluster ran, changes nothing when it is handed over again, whatever has happened since. If it is not
discarded, the reply of the first time is sent again, except to a message that was delivered. -/
theorem redelivery_inert {roster : Roster} {w v : World} (reachable : w.Reachable roster)
    {p : MemberId} {g : Datagram} (here : roster.addressOf p = some g.target) {r : Record}
    (holds : Record.decode g.bytes = .ok r) (posted : g ∈ w.sent ∨ r.kind = .marker)
    {draws : Draws} (taken : (w.node p).accepts draws g.source r = true) {rest : List Action}
    (run : v = (w.handOver p g draws).run roster rest) (again : Draws) :
    (v.handOver p g again).node = v.node ∧
    (v.handOver p g again).log = v.log ∧
    ∃ first, (w.handOver p g draws).sent = w.sent ++ first ∧ first.length ≤ 1 ∧
      (∀ f ∈ first, ∃ x, Record.decode f.bytes = .ok x ∧ x.about? = r.about? ∧
        (r.kind = .message ∧ x.kind = .proposal ∨ r.kind = .decision ∧ x.kind = .receipt)) ∧
      (r.kind = .decision → first ≠ []) ∧
      (v.handOver p g again).sent = v.sent ++
        if (v.node p).accepts again g.source r = true ∧ r ∉ (v.log p).map Record.message then first
        else [] := by
  have member := Roster.mem_ids_of_addressOf here
  have inert := reachable.inert here holds posted taken run
  obtain ⟨node, log, mail⟩ := handOver_inert holds inert again
  have sent : (w.handOver p g draws).sent =
      w.sent ++ (w.node p).replies ((w.node p).handle r).2 := by
    rw [handOver_eq p holds, if_pos taken]
    rfl
  refine ⟨node, log, _, sent, (w.node p).length_replies_le _,
    fun f hf => Node.reply_about (reachable.coherent member) hf, ?_, ?_⟩
  · intro decision
    cases r with
    | decision d =>
      have posted := posted.resolve_right fun marker => by cases marker
      exact reachable.lawful.confirms member (reachable.lawful.meant posted here holds)
    | _ => cases decision
  · have later : v.Reachable roster := run ▸ (reachable.handOver here holds posted draws).run rest
    have group : (v.node p).group = (w.node p).group := by
      rw [(later.lawful.seat p member).group, (reachable.lawful.seat p member).group]
    have same : (v.node p).replies ⟨[], ((w.node p).handle r).2.reply⟩ =
        (w.node p).replies ((w.node p).handle r).2 := Node.replies_congr group rfl
    rw [mail]
    by_cases delivered : r ∈ (v.log p).map Record.message
    · simp [delivered, Node.replies]
    · simp [delivered, same]

/-- The member at the second place sends the same proposal again for a message that comes again,
although it has proposed a greater number since, and no more once the message is delivered. -/
theorem redelivery_inert_of_message :
    let w := pair.run .pair [.multicast ⟨1⟩ 7, .transmit ⟨1⟩ 0]
    let g : Datagram := ⟨.loopback 1, .loopback 2, Record.encode (.message ⟨⟨⟨1⟩, 1⟩, 7⟩)⟩
    let v := (w.handOver ⟨2⟩ g (.ofList [])).run .pair [.multicast ⟨2⟩ 9]
    let u := (w.handOver ⟨2⟩ g (.ofList [])).run .pair [.multicast ⟨2⟩ 9, .handOver 1 (.ofList []),
      .transmit ⟨1⟩ 0, .handOver 2 (.ofList [])]
    ((v.handOver ⟨2⟩ g (.ofList [])).node = v.node ∧ (v.node ⟨2⟩).agreement.latest = 2 ∧
      (v.handOver ⟨2⟩ g (.ofList [])).sent = v.sent ++ v.sent.drop 1) ∧
    (u.handOver ⟨2⟩ g (.ofList [])).node = u.node ∧ u.log ⟨2⟩ = [⟨⟨⟨1⟩, 1⟩, 7⟩] ∧
      (u.handOver ⟨2⟩ g (.ofList [])).sent = u.sent := by
  intro w g v u
  have posted : g ∈ w.sent := by decide +kernel
  have taken : (w.node ⟨2⟩).accepts (.ofList []) g.source (.message ⟨⟨⟨1⟩, 1⟩, 7⟩) = true := by
    decide +kernel
  have here : Roster.pair.addressOf ⟨2⟩ = some g.target := by decide
  have open_ := redelivery_inert (v := v) (reachable_pair _) here (Record.decode_encode _)
    (.inl posted) taken rfl (.ofList [])
  have done := redelivery_inert (v := u) (reachable_pair _) here (Record.decode_encode _)
    (.inl posted) taken rfl (.ofList [])
  exact ⟨⟨open_.1, by decide +kernel, by decide +kernel⟩, done.1, by decide +kernel,
    by decide +kernel⟩

end World

end Concord
