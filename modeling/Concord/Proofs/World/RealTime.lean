import Concord.Proofs.World.TotalOrder

/-!
Order in real time. A member counts every final number that it learns, so whatever it proposes
afterwards is greater, and a decision waits for the proposals of all members that its sender has
not removed: a message that is sent when one of them has delivered another one comes after it,
everywhere.
-/

namespace Concord

namespace Ledger

variable {roster : Roster} {past later : List Event} {p : MemberId} {d : Decision}

/-- A member's first proposal for a message exceeds every number that it learned before. -/
theorem learned_lt_proposed (h : Ledger roster (past ++ later)) (learned : .learned p d ∈ past)
    {x : Proposal} (own : x.stamp.proposer = p) (proposed : .proposed x ∈ past ++ later)
    (new : .proposed x ∉ past) : d.stamp.number < x.stamp.number := by
  have follows := (List.mem_append.mp proposed).resolve_left new
  obtain ⟨before, after, rfl, first⟩ := List.eq_append_cons_of_mem follows
  have admitted := h.followed (past ++ before) (.proposed x) after (by rw [List.append_assoc])
  rcases admitted with again | ⟨-, -, exceeds⟩
  · exact absurd again (by simp [new, first])
  · apply exceeds d
    rw [own]
    exact List.mem_append_left _ learned

/-- A decision waits for everyone who was not removed before. -/
theorem proposed_of_kept {l : List MemberId} (h : Ledger roster (past ++ .decided d l :: later))
    (member : p ∈ roster.ids) (kept : p = d.id.sender ∨ .removed d.id.sender p ∉ past) :
    ∃ k, .proposed ⟨d.id, ⟨k, p⟩⟩ ∈ past ∧ k ≤ d.stamp.number := by
  obtain ⟨-, -, above, everyone⟩ := h.followed past (.decided d l) later rfl
  exact above p (everyone p member kept)

end Ledger

namespace World

namespace Lawful

variable {roster : Roster} {w : World} {p : MemberId} {m k : Message}

theorem sublist_of_precedes (h : w.Lawful roster) (member : p ∈ roster.ids) (hm : m ∈ w.log p)
    (hk : k ∈ w.log p) (order : Precedes w.history m k) : [m, k].Sublist (w.log p) := by
  have other : m ≠ k := fun same => h.ledger.id_ne_of_precedes order (congrArg Message.id same)
  apply (pair_sublist_or hm hk other).resolve_right
  intro swapped
  have reverse : Precedes w.history k m :=
    (h.seat p member).orderly.log_sorted.forall_sublist swapped
  exact h.ledger.precedes_asymm order reverse

/-- A delivered message was learned with the stamp that was decided. -/
theorem learned_stamp (h : w.Lawful roster) (member : p ∈ roster.ids) (delivered : m ∈ w.log p)
    {s : Stamp} {l : List MemberId} (decided : .decided ⟨m.id, s⟩ l ∈ w.history) :
    .learned p ⟨m.id, s⟩ ∈ w.history := by
  obtain ⟨t, known⟩ := h.learned_of_delivered member delivered
  obtain ⟨k, decided', -⟩ := h.ledger.learned_decided p _ known
  rwa [h.ledger.decided_once _ _ k l decided' decided rfl] at known

/-- The next message of a member is new to everyone. -/
theorem unproposed (h : w.Lawful roster) (member : p ∈ roster.ids) {payload : UInt32}
    {a : Agreement} {s : Option Settlement}
    (created : (w.node p).agreement.create payload = .ok (a, m, s)) :
    m.id.sender = p ∧ ∀ x, .proposed x ∈ w.history → x.id ≠ m.id := by
  obtain ⟨count, number, next, -, rfl, -⟩ := Agreement.create_eq_ok created
  have seat := h.seat p member
  refine ⟨seat.self, fun x hx same => ?_⟩
  obtain ⟨k, sent, about⟩ := h.ledger.proposed_sent x hx
  exact seat.polling.unsent rfl next k sent (about.trans same)

end Lawful

/-- When a member sends a message, and a member that it has not removed when it decides on it, or it
itself, had delivered another one by then, the other one comes first. -/
theorem real_time_order {roster : Roster} {w v : World} (reachable : w.Reachable roster)
    {p q : MemberId} (hp : p ∈ roster.ids) (hq : q ∈ roster.ids) {m k : Message}
    (delivered : m ∈ w.log p) {payload : UInt32} {a : Agreement} {settlement : Option Settlement}
    (created : (w.node q).agreement.create payload = .ok (a, k, settlement)) {rest : List Action}
    (run : v = (w.multicast q payload).run roster rest) {before after : List Event} {t : Stamp}
    {l : List MemberId} (decided : v.history = before ++ .decided ⟨k.id, t⟩ l :: after)
    (kept : p = q ∨ .removed q p ∉ before) {s : Stamp} {j : List MemberId}
    (final : .decided ⟨m.id, s⟩ j ∈ v.history) :
    s.precedes t = true ∧
    ∀ r ∈ roster.ids, m ∈ v.log r → k ∈ v.log r → [m, k].Sublist (v.log r) := by
  have past := reachable.lawful
  have step : Step roster w (w.multicast q payload) := .multicast hq payload
  have h : v.Lawful roster := run ▸ ((Reachable.next reachable step).run rest).lawful
  obtain ⟨later, grown⟩ : w.history <+: v.history :=
    run ▸ step.history_prefix.trans (history_prefix_run roster _ rest)
  obtain ⟨own, new⟩ := past.unproposed hq created
  -- what the member delivered, it had learned with the stamp that was decided
  have learned : .learned p ⟨m.id, s⟩ ∈ w.history := by
    obtain ⟨u, known⟩ := past.learned_of_delivered hp delivered
    obtain ⟨i, decided', -⟩ := past.ledger.learned_decided p _ known
    have decided' : .decided ⟨m.id, u⟩ i ∈ v.history := grown ▸ List.mem_append_left _ decided'
    rwa [h.ledger.decided_once _ _ i j decided' final rfl] at known
  have lt : s.precedes t = true := by
    have ledger := h.ledger
    rw [decided] at ledger
    obtain ⟨n, proposed, le⟩ := ledger.proposed_of_kept hp (own ▸ kept)
    have proposed : .proposed ⟨k.id, ⟨n, p⟩⟩ ∈ w.history ++ later := by
      rw [grown, decided]
      exact List.mem_append_left _ proposed
    have exceeds : s.number < n := (grown ▸ h.ledger).learned_lt_proposed learned rfl proposed
      fun early => new _ early rfl
    exact Stamp.precedes_iff.mpr (.inl (UInt32.lt_of_lt_of_le exceeds le))
  refine ⟨lt, fun r hr hm hk => ?_⟩
  have decided : .decided ⟨k.id, t⟩ l ∈ v.history := by simp [decided]
  exact h.sublist_of_precedes hr hm hk
    ⟨r, r, s, t, h.learned_stamp hr hm final, h.learned_stamp hr hk decided, lt⟩

/-- The member at the second place has not learned of the first message when it sends its own. -/
theorem real_time_order_of_unaware :
    let w := pair.run .pair [.multicast ⟨1⟩ 7, .transmit ⟨1⟩ 0, .handOver 0 (.ofList []),
      .handOver 1 (.ofList [])]
    let v := (w.multicast ⟨2⟩ 9).run .pair [.transmit ⟨2⟩ 0, .handOver 2 (.ofList []),
      .handOver 3 (.ofList [])]
    w.log ⟨1⟩ = [⟨⟨⟨1⟩, 1⟩, 7⟩] ∧ w.log ⟨2⟩ = [] ∧
      v.history = v.history.take 8 ++ .decided ⟨⟨⟨2⟩, 1⟩, ⟨2, ⟨1⟩⟩⟩ [⟨1⟩, ⟨2⟩] :: v.history.drop 9 ∧
      (⟨1, ⟨1⟩⟩ : Stamp).precedes ⟨2, ⟨1⟩⟩ = true := by
  intro w v
  have decided : v.history = v.history.take 8 ++
      .decided ⟨⟨⟨2⟩, 1⟩, ⟨2, ⟨1⟩⟩⟩ [⟨1⟩, ⟨2⟩] :: v.history.drop 9 := by decide +kernel
  have order := real_time_order (p := ⟨1⟩) (m := ⟨⟨⟨1⟩, 1⟩, 7⟩) (k := ⟨⟨⟨2⟩, 1⟩, 9⟩) (q := ⟨2⟩)
    (w := w) (s := ⟨1, ⟨1⟩⟩) (j := [⟨1⟩, ⟨2⟩]) (reachable_pair _)
    (by decide) (by decide) (by decide +kernel) rfl rfl decided (.inr (by decide +kernel))
    (by decide +kernel)
  exact ⟨by decide +kernel, by decide +kernel, decided, order.1⟩

end World

end Concord
