import Concord.Proofs.Node.Basic

/-!
The calls of a member in small pieces. Every outbox has a lock of its own, so a call that touches
the agreement and both outboxes is not done at once: it keeps the lock on the agreement until its
end, but an outbox may change hands in between. A proposal is taken in two halves, and the second
one waits for that lock. Calls that nobody interrupts come out as they do in one piece.
-/

namespace Concord

/-- What the call that holds the lock on the agreement has still to do. -/
inductive Duty where
  /-- Owe a new message to all others, then publish. -/
  | put (m : Message) (rest : List Settlement)
  /-- Forget a removed member in both outboxes, then publish. -/
  | forgetMessages (other : MemberId) (rest : List Settlement)
  | forgetDecisions (other : MemberId) (rest : List Settlement)
  /-- Publish what was decided. When nothing is left, the lock is free. -/
  | publish (rest : List Settlement)

namespace Duty

def free : Duty := .publish []

def isFree : Duty → Bool
  | .publish [] => true
  | _ => false

/-- The message that a multicast has created but not put yet. -/
def message? : Duty → Option Message
  | .put m _ => some m
  | _ => none

/-- The removed member that may still be owed messages. -/
def forgetting? : Duty → Option MemberId
  | .forgetMessages other _ => some other
  | _ => none

/-- The removed member that may still be owed anything. -/
def leaving? : Duty → Option MemberId
  | .forgetMessages other _ => some other
  | .forgetDecisions other _ => some other
  | _ => none

theorem isFree_iff {duty : Duty} : duty.isFree = true ↔ duty = free := by
  unfold isFree free
  split
  · simp
  · rename_i other
    simp only [Bool.false_eq_true, false_iff]
    exact other

end Duty

/-- A member at work. `halves` are the proposals that acknowledged their messages and still have to
count, and `log` has what was delivered. -/
structure Desk where
  node : Node
  duty : Duty
  halves : List Proposal
  log : List Message

/-- What happens next. -/
inductive Turn where
  | multicast (payload : UInt32)
  | remove (other : MemberId)
  | receive (r : Record)
  /-- The second half of taking a proposal. -/
  | count (x : Proposal)
  /-- The call that holds the lock goes on. -/
  | work

/-- Whether the lock on the agreement is needed to handle a record. A proposal needs it in its
second half only. -/
def Record.locks : Record → Bool
  | .message _ => true
  | .decision _ => true
  | .proposal _ => false
  | .receipt _ => false
  | .marker _ => false

namespace Desk

def start (n : Node) : Desk := ⟨n, .free, [], []⟩

/-- A record arrives. Only a message or a decision has to wait for the lock. -/
def receive (d : Desk) (r : Record) : Desk :=
  match r with
  | .proposal x =>
    { d with
      node := (d.node.acknowledgeMessage x).1
      halves := if (d.node.acknowledgeMessage x).2 then d.halves ++ [x] else d.halves }
  | r =>
    if r.locks && !d.duty.isFree then d
    else { d with node := (d.node.handle r).1, log := d.log ++ (d.node.handle r).2.delivered }

/-- A multicast has the lock and creates its message. -/
def create (d : Desk) (a : Agreement) (m : Message) (settlement : Option Settlement) : Desk :=
  { d with node := { d.node with agreement := a }, duty := .put m settlement.toList }

def put (d : Desk) (m : Message) (rest : List Settlement) : Desk :=
  { d with
    node := { d.node with messages := d.node.messages.put m d.node.agreement.others }
    duty := .publish rest }

/-- A removal has the lock and completes the ballots. -/
def remove (d : Desk) (other : MemberId) : Desk :=
  { d with
    node := { d.node with agreement := (d.node.agreement.remove other).1 }
    duty := .forgetMessages other (d.node.agreement.remove other).2 }

def forgetMessages (d : Desk) (other : MemberId) (rest : List Settlement) : Desk :=
  { d with
    node := { d.node with messages := (d.node.messages.forget other).1 }
    duty := .forgetDecisions other rest }

def forgetDecisions (d : Desk) (other : MemberId) (rest : List Settlement) : Desk :=
  { d with
    node := { d.node with decisions := (d.node.decisions.forget other).1 }
    duty := .publish rest }

/-- The second half of taking a proposal. -/
def count (d : Desk) (x : Proposal) : Desk :=
  { d with
    node := { d.node with agreement := (d.node.agreement.count x).1 }
    duty := .publish (d.node.agreement.count x).2.toList
    halves := d.halves.erase x }

def publish (d : Desk) (s : Settlement) (rest : List Settlement) : Desk :=
  { d with
    node := (d.node.publish s).1
    duty := .publish rest
    log := d.log ++ (d.node.publish s).2 }

/-- The holder of the lock does the next thing on its list. -/
def work (d : Desk) : Desk :=
  match d.duty with
  | .put m rest => d.put m rest
  | .forgetMessages other rest => d.forgetMessages other rest
  | .forgetDecisions other rest => d.forgetDecisions other rest
  | .publish [] => d
  | .publish (s :: rest) => d.publish s rest

/-- A call that needs the lock while another one holds it has no effect yet, and neither has a
multicast that fails. -/
def turn (d : Desk) : Turn → Desk
  | .multicast payload =>
    match d.node.agreement.create payload with
    | .error _ => d
    | .ok (a, m, settlement) => if d.duty.isFree then d.create a m settlement else d
  | .remove other => if d.duty.isFree then d.remove other else d
  | .receive r => d.receive r
  | .count x => if d.duty.isFree ∧ x ∈ d.halves then d.count x else d
  | .work => d.work

/-- A record that is no proposal is handled at once, or not at all. -/
theorem receive_cases (d : Desk) (r : Record) : (∃ x, r = .proposal x) ∨ d.receive r = d ∨
    r.kind ≠ .proposal ∧ d.receive r =
      { d with node := (d.node.handle r).1, log := d.log ++ (d.node.handle r).2.delivered } := by
  unfold receive
  split
  · rename_i x
    exact .inl ⟨x, rfl⟩
  · rename_i other
    have kind : r.kind ≠ .proposal := by
      intro same
      cases r with
      | proposal x => exact other x rfl
      | _ => cases same
    split
    · exact .inr (.inl rfl)
    · exact .inr (.inr ⟨kind, rfl⟩)

def run (d : Desk) (turns : List Turn) : Desk := turns.foldl turn d

theorem run_append (d : Desk) (first rest : List Turn) :
    d.run (first ++ rest) = (d.run first).run rest := List.foldl_append

section Uninterrupted

variable (n : Node) (halves : List Proposal) (log : List Message)

theorem run_publish (settlements : List Settlement) :
    (⟨n, .publish settlements, halves, log⟩ : Desk).run
        (List.replicate settlements.length .work) =
      ⟨(n.publishAll settlements).1, .free, halves, log ++ (n.publishAll settlements).2⟩ := by
  induction settlements generalizing n log with
  | nil =>
    rw [Node.publishAll, List.append_nil]
    rfl
  | cons s rest ih =>
    have first : (⟨n, .publish (s :: rest), halves, log⟩ : Desk).run
        (List.replicate (s :: rest).length .work) =
        (⟨(n.publish s).1, .publish rest, halves, log ++ (n.publish s).2⟩ : Desk).run
          (List.replicate rest.length .work) := rfl
    rw [first, ih, Node.publishAll, List.append_assoc]

theorem multicast_uninterrupted {k : Node} {payload : UInt32} {delivered : List Message}
    (ok : n.multicast payload = .ok (k, delivered)) : ∃ steps,
      (⟨n, .free, halves, log⟩ : Desk).run (.multicast payload :: List.replicate steps .work) =
        ⟨k, .free, halves, log ++ delivered⟩ := by
  rw [Node.multicast_eq] at ok
  split at ok
  · cases ok
  · rename_i a m settlement created
    obtain ⟨rfl, rfl⟩ := Prod.mk.inj (Except.ok.inj ok)
    refine ⟨settlement.toList.length + 1, ?_⟩
    rw [← run_publish, List.replicate_succ, run, List.foldl_cons, List.foldl_cons]
    simp only [turn, created]
    rfl

theorem remove_uninterrupted (other : MemberId) : ∃ steps,
    (⟨n, .free, halves, log⟩ : Desk).run (.remove other :: List.replicate steps .work) =
      ⟨(n.remove other).1, .free, halves, log ++ (n.remove other).2⟩ := by
  refine ⟨(n.agreement.remove other).2.length + 2, ?_⟩
  rw [Node.remove, ← run_publish]
  rfl

/-- Unless the same proposal is already between its halves. -/
theorem proposal_uninterrupted {x : Proposal} (new : x ∉ halves) : ∃ steps,
    (⟨n, .free, halves, log⟩ : Desk).run
        (.receive (.proposal x) :: .count x :: List.replicate steps .work) =
      ⟨(n.takeProposal x).1, .free, halves, log ++ (n.takeProposal x).2⟩ := by
  rw [Node.takeProposal]
  split
  · rename_i k awaited
    refine ⟨(k.agreement.count x).2.toList.length, ?_⟩
    rw [Node.countProposal, ← run_publish]
    have received : (⟨n, .free, halves, log⟩ : Desk).turn (.receive (.proposal x)) =
        ⟨k, .free, halves ++ [x], log⟩ := by
      simp only [turn, receive, awaited, if_true]
    have counted : (⟨k, .free, halves ++ [x], log⟩ : Desk).turn (.count x) =
        ⟨{ k with agreement := (k.agreement.count x).1 },
          .publish (k.agreement.count x).2.toList, halves, log⟩ := by
      have listed : Duty.free.isFree = true ∧ x ∈ halves ++ [x] := ⟨rfl, List.mem_concat_self⟩
      have erased : (halves ++ [x]).erase x = halves := by
        rw [List.erase_append_right _ new, List.erase_cons_head, List.append_nil]
      simp only [turn, if_pos listed, count, erased]
    rw [run, List.foldl_cons, List.foldl_cons, received, counted]
    rfl
  · rename_i k unawaited
    refine ⟨0, ?_⟩
    have received : (⟨n, .free, halves, log⟩ : Desk).turn (.receive (.proposal x)) =
        ⟨k, .free, halves, log⟩ := by
      simp only [turn, receive, unawaited, Bool.false_eq_true, if_false]
    have counted : (⟨k, .free, halves, log⟩ : Desk).turn (.count x) = ⟨k, .free, halves, log⟩ :=
      if_neg fun listed => new listed.2
    rw [run, List.foldl_cons, List.foldl_cons, received, counted, List.append_nil]
    rfl

end Uninterrupted

end Desk

end Concord
