import Concord.Proofs.World.Basic

/-!
What holds of any history, whatever the members are doing now: a message is sent once, a member
proposes one number for a message and never the same number twice, and a decision is unique, was
proposed, and is at least the proposal of every member that it is meant for.
-/

namespace Concord

/-- What may be noted next. A new proposal is the first of its member for the message, and greater
than all its earlier ones and than all that it has learned. A decision is the first for its message,
was proposed, is at least what its audience proposed, and its audience are all members that its
sender has not removed so far. -/
def Event.Follows (roster : Roster) (H : List Event) : Event → Prop
  | .sent m => ∀ k, .sent k ∈ H → k.id ≠ m.id
  | .proposed x => .proposed x ∈ H ∨ (∃ m, .sent m ∈ H ∧ m.id = x.id) ∧
      (∀ y, .proposed y ∈ H → y.stamp.proposer = x.stamp.proposer →
        y.id ≠ x.id ∧ y.stamp.number < x.stamp.number) ∧
      ∀ d, .learned x.stamp.proposer d ∈ H → d.stamp.number < x.stamp.number
  | .decided d l => (∀ e k, .decided e k ∈ H → e.id ≠ d.id) ∧ .proposed ⟨d.id, d.stamp⟩ ∈ H ∧
      (∀ r ∈ l, ∃ k, .proposed ⟨d.id, ⟨k, r⟩⟩ ∈ H ∧ k ≤ d.stamp.number) ∧
      ∀ r ∈ roster.ids, r = d.id.sender ∨ .removed d.id.sender r ∉ H → r ∈ l
  | .learned p d => ∃ l, .decided d l ∈ H ∧ p ∈ l
  | .removed _ _ => True

structure Ledger (roster : Roster) (H : List Event) : Prop where
  /-- Every event followed those before it by the rules. -/
  followed : ∀ before e after, H = before ++ e :: after → e.Follows roster before
  placed : ∀ e ∈ H, e.place ∈ roster.ids
  sent_once : ∀ m k, .sent m ∈ H → .sent k ∈ H → m.id = k.id → m = k
  proposed_sent : ∀ x, .proposed x ∈ H → ∃ m, .sent m ∈ H ∧ m.id = x.id
  /-- A member proposes one number for a message. -/
  proposal_once : ∀ x y, .proposed x ∈ H → .proposed y ∈ H → x.id = y.id →
    x.stamp.proposer = y.stamp.proposer → x = y
  /-- A member proposes a number for one message. -/
  stamp_once : ∀ x y, .proposed x ∈ H → .proposed y ∈ H → x.stamp = y.stamp → x = y
  decided_once : ∀ d e l k, .decided d l ∈ H → .decided e k ∈ H → d.id = e.id → d = e
  decided_proposed : ∀ d l, .decided d l ∈ H → .proposed ⟨d.id, d.stamp⟩ ∈ H
  decided_above : ∀ d l, .decided d l ∈ H → ∀ r ∈ l,
    ∃ k, .proposed ⟨d.id, ⟨k, r⟩⟩ ∈ H ∧ k ≤ d.stamp.number
  learned_decided : ∀ p d, .learned p d ∈ H → ∃ l, .decided d l ∈ H ∧ p ∈ l

namespace Ledger

variable {roster : Roster} {H : List Event}

theorem nil : Ledger roster [] := by
  constructor
  case followed =>
    intro before e after split
    simp at split
  all_goals intros; contradiction

theorem decided_sent (h : Ledger roster H) {d : Decision} {l : List MemberId}
    (hd : .decided d l ∈ H) : ∃ m, .sent m ∈ H ∧ m.id = d.id :=
  h.proposed_sent _ (h.decided_proposed d l hd)

theorem learned_once (h : Ledger roster H) {p q : MemberId} {d e : Decision}
    (hd : .learned p d ∈ H) (he : .learned q e ∈ H) (same : d.id = e.id) : d = e := by
  obtain ⟨l, hd, -⟩ := h.learned_decided p d hd
  obtain ⟨k, he, -⟩ := h.learned_decided q e he
  exact h.decided_once d e l k hd he same

/-- Decisions on different messages differ in their stamps. -/
theorem decided_injective (h : Ledger roster H) {d e : Decision} {l k : List MemberId}
    (hd : .decided d l ∈ H) (he : .decided e k ∈ H) (same : d.stamp = e.stamp) : d = e := by
  have proposals := h.stamp_once _ _ (h.decided_proposed d l hd) (h.decided_proposed e k he) same
  exact h.decided_once d e l k hd he (congrArg Proposal.id proposals)

theorem append (h : Ledger roster H) {e : Event} (member : e.place ∈ roster.ids)
    (ok : e.Follows roster H) : Ledger roster (H ++ [e]) := by
  have followed : ∀ before x after, H ++ [e] = before ++ x :: after → x.Follows roster before := by
    intro before x after split
    rcases List.eq_nil_or_concat after with rfl | ⟨rest, last, rfl⟩
    · obtain ⟨rfl, last⟩ := List.append_inj' split rfl
      cases last
      exact ok
    · rw [List.concat_eq_append, ← List.cons_append, ← List.append_assoc] at split
      exact h.followed before x rest (List.append_inj_left' split rfl)
  obtain ⟨-, placed, sent_once, proposed_sent, proposal_once, stamp_once, decided_once,
    decided_proposed, decided_above, learned_decided⟩ := h
  -- every rule relates events of two kinds at most; it has to be checked again where one is new
  cases e with
  | sent m =>
    have new : ∀ k, .sent k ∈ H → k.id ≠ m.id := ok
    constructor
    case followed => exact followed
    all_goals grind
  | proposed x =>
    rcases ok with again | ⟨sent, first, -⟩
    · have same : ∀ e, e ∈ H ++ [.proposed x] ↔ e ∈ H := by grind
      constructor
      case followed => exact followed
      all_goals simp only [same]; assumption
    · have differs : ∀ y, .proposed y ∈ H → y.stamp ≠ x.stamp := by
        intro y hy same
        have lt := (first y hy (congrArg Stamp.proposer same)).2
        rw [same] at lt
        exact UInt32.lt_irrefl _ lt
      constructor
      case followed => exact followed
      all_goals grind
  | decided d l =>
    obtain ⟨new, proposed, above, -⟩ := ok
    constructor
    case followed => exact followed
    all_goals grind
  | learned p d =>
    have decided : ∃ l, .decided d l ∈ H ∧ p ∈ l := ok
    constructor
    case followed => exact followed
    all_goals grind
  | removed p other =>
    constructor
    case followed => exact followed
    all_goals grind

end Ledger

end Concord
