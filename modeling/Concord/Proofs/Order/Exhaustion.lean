import Concord.Proofs.Node.Basic
import Concord.Proofs.Order.Calls
import Concord.Proofs.Order.Lacking
import Concord.Proofs.Order.Repetition
import Concord.Run.LiveNode

/-!
Numbers at the end of their range. A message that would need a number after the last one is not
created, and not answered either, and nothing changes. So the counters are at every time what they
would be if numbers had no end.
-/

namespace Concord.Agreement

/-- The number of own messages is looked at first. -/
theorem create_eq_error_iff {a : Agreement} {payload : UInt32} {e : Exhausted} :
    a.create payload = .error e ↔
      e = .messageNumbers ∧ a.created = 0xFFFFFFFF ∨
        e = .sequenceNumbers ∧ a.created ≠ 0xFFFFFFFF ∧ a.latest = 0xFFFFFFFF := by
  by_cases messages : a.created = 0xFFFFFFFF
  · simp [create_eq, after?, messages, eq_comm]
  · by_cases sequences : a.latest = 0xFFFFFFFF
    · simp [create_eq, after?, messages, sequences, eq_comm]
    · simp [create_eq, after?, messages, sequences]

theorem exists_error_create_iff (a : Agreement) (payload : UInt32) :
    (∃ e, a.create payload = .error e) ↔ a.created = 0xFFFFFFFF ∨ a.latest = 0xFFFFFFFF := by
  simp only [create_eq_error_iff]
  constructor
  · rintro ⟨e, ⟨-, last⟩ | ⟨-, -, last⟩⟩
    · exact .inl last
    · exact .inr last
  · intro last
    by_cases messages : a.created = 0xFFFFFFFF
    · exact ⟨_, .inl ⟨rfl, messages⟩⟩
    · exact ⟨_, .inr ⟨rfl, messages, last.resolve_left messages⟩⟩

theorem tryCreate_eq_error_iff {a : Agreement} {payload : UInt32} {e : Exhausted} :
    (a.tryCreate payload).2 = .error e ↔ a.create payload = .error e := by
  rw [tryCreate_eq]
  cases a.create payload <;> simp

/-- The number of messages that a call creates. -/
def creations (a : Agreement) : Operation → Nat
  | .create payload =>
    match a.create payload with
    | .error _ => 0
    | .ok _ => 1
  | _ => 0

/-- What a call would make of the two counters, of own messages and of sequence numbers, if numbers
had no end: a new proposal is one above all numbers seen, and a decision may be higher still. -/
def advance (a : Agreement) (counters : Nat × Nat) (operation : Operation) : Nat × Nat :=
  (counters.1 + a.creations operation,
    (a.rules operation).foldl (fun n d => max n d.stamp.number.toNat)
      (counters.2 + (a.assigns? operation).toList.length))

def advanceAll (a : Agreement) (counters : Nat × Nat) : List Operation → Nat × Nat
  | [] => counters
  | operation :: rest => (a.perform operation).advanceAll (a.advance counters operation) rest

theorem toNat_max (n k : UInt32) : (max n k).toNat = max n.toNat k.toNat := by
  change (if n ≤ k then k else n).toNat = _
  simp only [UInt32.le_iff_toNat_le]
  split <;> omega

theorem created_perform (a : Agreement) (operation : Operation) :
    (a.perform operation).created.toNat = a.created.toNat + a.creations operation := by
  rw [(a.perform_frame operation).2.1]
  cases operation with
  | create payload =>
    simp only [prepared, creations, create_eq]
    cases next : after? a.created with
    | none => rfl
    | some created =>
      cases after? a.latest with
      | none => rfl
      | some number => exact after?_eq_some next
  | propose m => exact congrArg UInt32.toNat (a.propose_frame m).2.2.1
  | count p =>
    rw [prepared, tallied_with]
    rfl
  | follow d => rfl
  | remove other =>
    simp only [prepared]
    split <;> rfl

theorem Preparation.toNat_latest {a b : Agreement} {operation : Operation}
    {proposal : Option Proposal} (prepares : Preparation a operation proposal b) :
    b.latest.toNat = a.latest.toNat + proposal.toList.length := by
  cases prepares with
  | same => rfl
  | drafted _ next => exact after?_eq_some next
  | answered _ _ _ next => exact after?_eq_some next
  | tallied p =>
    rw [tallied_with]
    rfl
  | without => rfl

theorem latest_perform (a : Agreement) (operation : Operation) :
    (a.perform operation).latest.toNat =
      (a.rules operation).foldl (fun n d => max n d.stamp.number.toNat)
        (a.latest.toNat + (a.assigns? operation).toList.length) := by
  have latest : (a.ready operation).latest = (a.prepared operation).latest := by
    rw [ready, closeAll_eq]
  rw [(a.perform_eq operation).1, adoptAll_latest, latest,
    ← (a.preparation operation).toNat_latest]
  exact (List.foldl_hom UInt32.toNat fun n d => (toNat_max n d.stamp.number).symm).symm

theorem counters_perform (a : Agreement) (operation : Operation) :
    ((a.perform operation).created.toNat, (a.perform operation).latest.toNat) =
      a.advance (a.created.toNat, a.latest.toNat) operation :=
  Prod.ext (a.created_perform operation) (a.latest_perform operation)

theorem counters_run (a : Agreement) (operations : List Operation) :
    ((a.run operations).created.toNat, (a.run operations).latest.toNat) =
      a.advanceAll (a.created.toNat, a.latest.toNat) operations := by
  induction operations generalizing a with
  | nil => rfl
  | cons operation rest ih =>
    rw [advanceAll, ← counters_perform]
    exact ih (a.perform operation)

theorem le_foldl_max (ds : List Decision) (n : Nat) :
    n ≤ ds.foldl (fun n d => max n d.stamp.number.toNat) n := by
  induction ds generalizing n with
  | nil => exact Nat.le_refl _
  | cons d rest ih => exact Nat.le_trans (Nat.le_max_left _ _) (ih _)

theorem latest_le_run (a : Agreement) (operations : List Operation) :
    a.latest ≤ (a.run operations).latest := by
  induction operations generalizing a with
  | nil => exact UInt32.le_refl _
  | cons operation rest ih =>
    have first : a.latest ≤ (a.perform operation).latest := by
      rw [UInt32.le_iff_toNat_le, latest_perform]
      exact Nat.le_trans (Nat.le_add_right _ _) (le_foldl_max _ _)
    exact UInt32.le_trans first (ih (a.perform operation))

/-- In any state whatever, a message is created unless a counter is at its end; else nothing changes,
neither here nor in the outboxes, the deliveries and the datagrams of a running member. At the end of
the sequence numbers a new message is not answered and changes nothing. So no calls, however many,
take a counter past its end, and none makes it fall. -/
theorem exhausted_inert (a : Agreement) (l : LiveNode) (payload : UInt32) (m : Message)
    (operations : List Operation) :
    ((∃ e, a.create payload = .error e) ↔ a.created = 0xFFFFFFFF ∨ a.latest = 0xFFFFFFFF) ∧
    (∀ e, (a.tryCreate payload).2 = .error e ↔ a.create payload = .error e) ∧
    ((∃ e, (a.tryCreate payload).2 = .error e) → (a.tryCreate payload).1 = a) ∧
    ((∃ e, a.create payload = .error e) → a.perform (.create payload) = a) ∧
    ((l.multicast payload).2.isSome = true ↔
      l.node.agreement.created = 0xFFFFFFFF ∨ l.node.agreement.latest = 0xFFFFFFFF) ∧
    ((l.multicast payload).2.isSome = true → (l.multicast payload).1 = l) ∧
    (a.latest = 0xFFFFFFFF → a.answers.get? m.id = none → a.propose m = (a, none)) ∧
    ((a.run operations).created.toNat, (a.run operations).latest.toNat) =
      a.advanceAll (a.created.toNat, a.latest.toNat) operations ∧
    a.created ≤ (a.run operations).created ∧ a.latest ≤ (a.run operations).latest := by
  have inert (fails : ∃ e, a.create payload = .error e) : (a.tryCreate payload).1 = a := by
    obtain ⟨e, fails⟩ := fails
    rw [tryCreate_eq, fails]
  refine ⟨a.exists_error_create_iff payload, fun e => tryCreate_eq_error_iff,
    fun ⟨e, fails⟩ => inert ⟨e, tryCreate_eq_error_iff.mp fails⟩, inert, ?_, ?_,
    fun last unanswered => ?_, a.counters_run operations, a.created_le_run operations,
    a.latest_le_run operations⟩
  · rw [← exists_error_create_iff l.node.agreement payload, LiveNode.multicast,
      Node.tryMulticast_eq, Node.multicast_eq]
    cases l.node.agreement.create payload <;> simp
  · rw [LiveNode.multicast, Node.tryMulticast_eq]
    cases l.node.multicast payload <;> simp
  · exact propose_of_ignores (.inr ⟨unanswered, .inr (after?_eq_none.mpr last)⟩)

/-- A decision of another member can take the sequence numbers to their end. -/
example :
    let a := (start ⟨1⟩ [⟨1⟩, ⟨2⟩]).run [.follow ⟨⟨⟨2⟩, 1⟩, ⟨0xFFFFFFFF, ⟨2⟩⟩⟩]
    a.create 7 = .error .sequenceNumbers ∧ (a.propose ⟨⟨⟨2⟩, 2⟩, 8⟩).2 = none := by
  exact ⟨rfl, rfl⟩

end Concord.Agreement
