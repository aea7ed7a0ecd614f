import Concord.Proofs.World.Run

/-!
All members deliver in one order, the order of final stamps. Members that removed each other may
deliver different messages, but never two of them in different orders; members that nobody has
removed deliver the same messages, some of them earlier than others.
-/

namespace Concord

theorem prefix_or_prefix {α : Type} {R : α → α → Prop} {l k : List α} (hl : l.Pairwise R)
    (hk : k.Pairwise R) (asymm : ∀ x y, R x y → ¬ R y x)
    (total : ∀ x ∈ l, ∀ y ∈ k, x ≠ y → R x y ∨ R y x)
    (left : ∀ x ∈ l, ∀ y ∈ k, R x y → x ∈ k) (right : ∀ x ∈ l, ∀ y ∈ k, R y x → y ∈ l) :
    l <+: k ∨ k <+: l := by
  induction l generalizing k with
  | nil => exact .inl List.nil_prefix
  | cons a l ih =>
    cases k with
    | nil => exact .inr List.nil_prefix
    | cons b k =>
      obtain ⟨ha, tailL⟩ := List.pairwise_cons.mp hl
      obtain ⟨hb, tailK⟩ := List.pairwise_cons.mp hk
      by_cases same : a = b
      · subst same
        have irrefl (x : α) (first : R a x) : x ≠ a := fun here => asymm a x first (here ▸ first)
        have tails : l <+: k ∨ k <+: l := by
          refine ih tailL tailK (fun x hx y hy => total x (.tail a hx) y (.tail a hy))
            (fun x hx y hy order => ?_) fun x hx y hy order => ?_
          · have listed := left x (.tail a hx) y (.tail a hy) order
            exact (List.mem_cons.mp listed).resolve_left (irrefl x (ha x hx))
          · have listed := right x (.tail a hx) y (.tail a hy) order
            exact (List.mem_cons.mp listed).resolve_left (irrefl y (hb y hy))
        simpa only [List.cons_prefix_cons, true_and] using tails
      · -- whichever comes first would have to stand behind the other one in its list
        exfalso
        rcases total a (.head l) b (.head k) same with first | first
        · have listed := left a (.head l) b (.head k) first
          exact asymm a b first (hb a ((List.mem_cons.mp listed).resolve_left same))
        · have listed := right a (.head l) b (.head k) first
          exact asymm b a first (ha b ((List.mem_cons.mp listed).resolve_left (Ne.symm same)))

theorem pair_sublist_or {α : Type} {l : List α} {x y : α} (hx : x ∈ l) (hy : y ∈ l) (other : x ≠ y) :
    [x, y].Sublist l ∨ [y, x].Sublist l := by
  obtain ⟨before, after, rfl⟩ := List.append_of_mem hx
  rcases List.mem_append.mp hy with earlier | later
  · have first : [y].Sublist before := List.singleton_sublist.mpr earlier
    have second : [x].Sublist (x :: after) := List.singleton_sublist.mpr List.mem_cons_self
    exact .inr (first.append second)
  · have second : [y].Sublist after :=
      List.singleton_sublist.mpr ((List.mem_cons.mp later).resolve_left other.symm)
    exact .inl ((second.cons_cons x).trans (List.sublist_append_right before _))

namespace Ledger

variable {roster : Roster} {H : List Event}

theorem precedes_asymm (h : Ledger roster H) {m k : Message} (order : Precedes H m k) :
    ¬ Precedes H k m := by
  obtain ⟨p, q, s, t, hs, ht, lt⟩ := order
  rintro ⟨q', p', t', s', ht', hs', gt⟩
  obtain rfl : s = s' := congrArg Decision.stamp (h.learned_once hs hs' rfl)
  obtain rfl : t = t' := congrArg Decision.stamp (h.learned_once ht ht' rfl)
  exact Stamp.precedes_asymm lt gt

theorem id_ne_of_precedes (h : Ledger roster H) {m k : Message} (order : Precedes H m k) :
    m.id ≠ k.id := by
  obtain ⟨p, q, s, t, hs, ht, lt⟩ := order
  intro same
  obtain rfl : s = t := congrArg Decision.stamp (h.learned_once hs ht same)
  exact Stamp.precedes_irrefl s lt

end Ledger

namespace World

namespace Lawful

variable {roster : Roster} {w : World} {p q : MemberId} {m k : Message}

theorem learned_of_delivered (h : w.Lawful roster) (hp : p ∈ roster.ids) (delivered : m ∈ w.log p) :
    ∃ s, .learned p ⟨m.id, s⟩ ∈ w.history :=
  have ⟨s, known, _⟩ := (h.seat p hp).orderly.log_passed m delivered
  ⟨s, known⟩

theorem eq_of_id_eq (h : w.Lawful roster) (hp : p ∈ roster.ids) (hq : q ∈ roster.ids)
    (hm : m ∈ w.log p) (hk : k ∈ w.log q) (same : m.id = k.id) : m = k :=
  h.ledger.sent_once m k ((h.seat p hp).orderly.log_sent m hm)
    ((h.seat q hq).orderly.log_sent k hk) same

theorem log_ids_nodup (h : w.Lawful roster) (hp : p ∈ roster.ids) :
    ((w.log p).map Message.id).Nodup :=
  List.pairwise_map.mpr <| (h.seat p hp).orderly.log_sorted.imp fun order =>
    h.ledger.id_ne_of_precedes order

/-- Of two messages that were delivered anywhere, one precedes the other. -/
theorem precedes_total (h : w.Lawful roster) (hp : p ∈ roster.ids) (hq : q ∈ roster.ids)
    (hm : m ∈ w.log p) (hk : k ∈ w.log q) (other : m ≠ k) :
    Precedes w.history m k ∨ Precedes w.history k m := by
  obtain ⟨s, hs⟩ := h.learned_of_delivered hp hm
  obtain ⟨t, ht⟩ := h.learned_of_delivered hq hk
  obtain ⟨l, decided, -⟩ := h.ledger.learned_decided p _ hs
  obtain ⟨l', decided', -⟩ := h.ledger.learned_decided q _ ht
  have differ : s ≠ t := fun same => other <| h.eq_of_id_eq hp hq hm hk <|
    congrArg Decision.id (h.ledger.decided_injective decided decided' same)
  rcases Stamp.precedes_total differ with lt | gt
  · exact .inl ⟨p, q, s, t, hs, ht, lt⟩
  · exact .inr ⟨q, p, t, s, ht, hs, gt⟩

/-- A member whom nobody has removed takes part in every decision. -/
theorem listed (h : w.Lawful roster) (hq : q ∈ roster.ids)
    (kept : ∀ r ∈ roster.ids, ¬ w.HasRemoved r q) {d : Decision} {l : List MemberId}
    (decided : .decided d l ∈ w.history) : q ∈ l := by
  have sender : d.id.sender ∈ roster.ids := h.ledger.placed _ decided
  have seat := h.seat _ sender
  refine (seat.publishing.audience d l q decided rfl ?_).1
  refine (seat.live q).mpr ⟨hq, ?_⟩
  by_cases here : q = d.id.sender
  · exact .inl here
  · exact .inr fun removed => kept _ sender ⟨here, removed⟩

/-- Such a member has delivered everything before the last message that it delivered. -/
theorem delivered_of_precedes (h : w.Lawful roster) (hp : p ∈ roster.ids) (hq : q ∈ roster.ids)
    (kept : ∀ r ∈ roster.ids, ¬ w.HasRemoved r q) (hm : m ∈ w.log p) (hk : k ∈ w.log q)
    (order : Precedes w.history m k) : m ∈ w.log q := by
  obtain ⟨r, r', s, t, hs, ht, lt⟩ := order
  obtain ⟨l, decided, -⟩ := h.ledger.learned_decided r _ hs
  have delivered := (h.seat q hq).orderly.delivered_before h.ledger decided
    (h.listed hq kept decided) hk ht lt
  obtain ⟨x, hx, same⟩ := List.mem_map.mp delivered
  exact h.eq_of_id_eq hq hp hx hm same ▸ hx

end Lawful

/-- Members that nobody has removed deliver the same messages in the same order, one of them
possibly ahead of the other. -/
theorem prefix_agreement {roster : Roster} {w : World} (reachable : w.Reachable roster)
    {p q : MemberId} (hp : p ∈ roster.ids) (hq : q ∈ roster.ids)
    (kept : ∀ r ∈ roster.ids, ¬ w.HasRemoved r p ∧ ¬ w.HasRemoved r q) :
    w.log p <+: w.log q ∨ w.log q <+: w.log p := by
  have h := reachable.lawful
  refine prefix_or_prefix (h.seat p hp).orderly.log_sorted (h.seat q hq).orderly.log_sorted
    (fun m k => h.ledger.precedes_asymm) (fun m hm k hk => h.precedes_total hp hq hm hk)
    (fun m hm k hk order => ?_) fun m hm k hk order => ?_
  · exact h.delivered_of_precedes hp hq (fun r hr => (kept r hr).2) hm hk order
  · exact h.delivered_of_precedes hq hp (fun r hr => (kept r hr).1) hk hm order

/-- The member at the second place has still to learn the decision. -/
theorem prefix_agreement_of_lagging :
    let w := pair.run .pair [.multicast ⟨1⟩ 7, .transmit ⟨1⟩ 0, .handOver 0 (.ofList []),
      .handOver 1 (.ofList [])]
    w.log ⟨1⟩ = [⟨⟨⟨1⟩, 1⟩, 7⟩] ∧ w.log ⟨2⟩ = [] ∧
      (w.log ⟨1⟩ <+: w.log ⟨2⟩ ∨ w.log ⟨2⟩ <+: w.log ⟨1⟩) :=
  ⟨by decide +kernel, by decide +kernel,
    prefix_agreement (reachable_pair _) (by decide) (by decide) (by decide +kernel)⟩

/-- Removals do not matter here: members that nobody waits for any more go on in the same order. -/
theorem total_order {roster : Roster} {w : World} (reachable : w.Reachable roster)
    {p q : MemberId} (hp : p ∈ roster.ids) (hq : q ∈ roster.ids) :
    (∀ m k, [m, k].Sublist (w.log p) → m ∈ w.log q → k ∈ w.log q → [m, k].Sublist (w.log q)) ∧
    ((w.log p).map Message.id).Nodup ∧
    (∀ m ∈ w.log p, ∃ (v : World) (rest : List Action) (a : Agreement) (s : Option Settlement),
      v.Reachable roster ∧ m.id.sender ∈ roster.ids ∧
      (v.node m.id.sender).agreement.create m.payload = .ok (a, m, s) ∧
      w = (v.multicast m.id.sender m.payload).run roster rest) ∧
    ∀ d e, .learned p d ∈ w.history → .learned q e ∈ w.history →
      (d.id = e.id ↔ d.stamp = e.stamp) := by
  have h := reachable.lawful
  have sortedP := (h.seat p hp).orderly.log_sorted
  have sortedQ := (h.seat q hq).orderly.log_sorted
  refine ⟨fun m k both hm hk => ?_, h.log_ids_nodup hp, fun m hm => ?_,
    fun d e hd he => ⟨fun same => ?_, fun same => ?_⟩⟩
  · have order : Precedes w.history m k := sortedP.forall_sublist both
    have other : m ≠ k := fun same => h.ledger.id_ne_of_precedes order (congrArg Message.id same)
    apply (pair_sublist_or hm hk other).resolve_right
    intro swapped
    have reverse : Precedes w.history k m := sortedQ.forall_sublist swapped
    exact h.ledger.precedes_asymm order reverse
  · exact reachable.origin ((h.seat p hp).orderly.log_sent m hm)
  · exact congrArg Decision.stamp (h.ledger.learned_once hd he same)
  · obtain ⟨l, decided, -⟩ := h.ledger.learned_decided p d hd
    obtain ⟨l', decided', -⟩ := h.ledger.learned_decided q e he
    exact congrArg Decision.id (h.ledger.decided_injective decided decided' same)

/-- The member at the first place goes on without the second one, which still learns of the message
that was decided before. -/
theorem total_order_of_suspected :
    let w := pair.run .pair [.multicast ⟨1⟩ 7, .multicast ⟨2⟩ 9, .transmit ⟨1⟩ 0, .transmit ⟨2⟩ 0,
      .handOver 0 (.ofList []), .handOver 1 (.ofList []), .handOver 2 (.ofList []),
      .handOver 3 (.ofList []), .transmit ⟨1⟩ 0, .remove ⟨1⟩ ⟨2⟩, .transmit ⟨2⟩ 0,
      .handOver 4 (.ofList []), .handOver 5 (.ofList [])]
    w.HasRemoved ⟨1⟩ ⟨2⟩ ∧ w.log ⟨1⟩ = [⟨⟨⟨2⟩, 1⟩, 9⟩, ⟨⟨⟨1⟩, 1⟩, 7⟩] ∧
      [⟨⟨⟨2⟩, 1⟩, 9⟩, ⟨⟨⟨1⟩, 1⟩, 7⟩].Sublist (w.log ⟨2⟩) :=
  ⟨by decide +kernel, by decide +kernel,
    (total_order (p := ⟨1⟩) (reachable_pair _) (by decide) (by decide)).1 _ _ (by decide +kernel)
      (by decide +kernel) (by decide +kernel)⟩

end World

end Concord
