import Concord.Node.Basic
import Concord.Proofs.Order.Coherence

/-!
Every operation of a member is a change that decides nothing, followed by decisions on some of its
own messages, each published as soon as it is taken.
-/

namespace Concord.Node

theorem start_eq_ok {settings : Settings} {g : Group} {n : Node}
    (ok : start settings g = .ok n) :
    n = ⟨g, .ofSettings settings, .start g.self g.ids, .empty, .empty⟩ := by
  unfold start at ok
  split at ok
  · cases ok
  · split at ok <;> cases ok
    rfl

/-- An outbox with all these decisions, for the same recipients. -/
def putAll (o : Outbox Decision) (recipients : List MemberId) (settlements : List Settlement) :
    Outbox Decision :=
  settlements.foldl (fun o s => o.put s.decision recipients) o

theorem publishAll_eq (n : Node) (settlements : List Settlement) : n.publishAll settlements =
    ({ n with decisions := putAll n.decisions n.agreement.others settlements },
      settlements.flatMap Settlement.delivered) := by
  induction settlements generalizing n with
  | nil => rfl
  | cons s rest ih =>
    simp only [publishAll, publish, ih]
    rfl

/-- Decides on an own message if its ballot is complete, and publishes the decision. -/
def conclude (n : Node) (id : MessageId) : Node × List Message :=
  { n with agreement := (n.agreement.decide? id).1 }.publishAll (n.agreement.decide? id).2.toList

def concludeAll (n : Node) : List MessageId → Node × List Message
  | [] => (n, [])
  | id :: rest =>
    let (n, delivered) := n.conclude id
    let (n, more) := n.concludeAll rest
    (n, delivered ++ more)

theorem conclude_eq (n : Node) (id : MessageId) : n.conclude id =
    ({ n with
        agreement := (n.agreement.decide? id).1
        decisions := putAll n.decisions n.agreement.others (n.agreement.decide? id).2.toList },
      (n.agreement.decide? id).2.toList.flatMap Settlement.delivered) := by
  obtain ⟨self, live⟩ := n.agreement.decide?_frame id
  have others : (n.agreement.decide? id).1.others = n.agreement.others := by
    rw [Agreement.others, self, live, Agreement.others]
  rw [conclude, publishAll_eq, others]

/-- Publishing all decisions at the end is the same as publishing each at once, because the
recipients are the same throughout. -/
theorem publishAll_decideAll (n : Node) (ids : List MessageId) :
    { n with agreement := (n.agreement.decideAll ids).1 }.publishAll
      (n.agreement.decideAll ids).2 = n.concludeAll ids := by
  induction ids generalizing n with
  | nil => rfl
  | cons id rest ih =>
    have first : n.concludeAll (id :: rest) = (((n.conclude id).1.concludeAll rest).1,
        (n.conclude id).2 ++ ((n.conclude id).1.concludeAll rest).2) := rfl
    obtain ⟨self, live⟩ := n.agreement.decide?_frame id
    obtain ⟨self', live'⟩ := (n.agreement.decide? id).1.decideAll_frame rest
    have others : ((n.agreement.decide? id).1.decideAll rest).1.others = n.agreement.others := by
      rw [Agreement.others, self', live', self, live, Agreement.others]
    rw [first, ← ih, conclude_eq, publishAll_eq, publishAll_eq]
    simp only [Agreement.decideAll, others, putAll, List.foldl_append, List.flatMap_append]

/-- A proposal that is not awaited changes at most the outbox. -/
theorem takeProposal_eq (n : Node) (x : Proposal) : n.takeProposal x =
    if (n.acknowledgeMessage x).2 then
      { (n.acknowledgeMessage x).1 with agreement := n.agreement.tallied x }.conclude x.id
    else ((n.acknowledgeMessage x).1, []) := by
  have counted : (n.acknowledgeMessage x).1.countProposal x =
      { (n.acknowledgeMessage x).1 with agreement := n.agreement.tallied x }.conclude x.id := by
    rw [countProposal, Agreement.count_eq]
    rfl
  rw [takeProposal, ← counted]
  cases awaited : (n.acknowledgeMessage x).2 with
  | true =>
    rw [← Prod.eta (n.acknowledgeMessage x), awaited]
    rfl
  | false =>
    rw [← Prod.eta (n.acknowledgeMessage x), awaited]
    rfl

/-- A member with a new message of its own, which is owed to all others. -/
def drafted (n : Node) (m : Message) (number : UInt32) : Node where
  group := n.group
  faults := n.faults
  agreement := n.agreement.drafted m number
  messages := n.messages.put m n.agreement.others
  decisions := n.decisions

theorem tryMulticast_eq (n : Node) (payload : UInt32) : n.tryMulticast payload =
    match n.multicast payload with
    | .error e => (n, .error e)
    | .ok (k, delivered) => (k, .ok delivered) := by
  rw [multicast, tryMulticast, Agreement.tryCreate_eq]
  cases n.agreement.create payload <;> rfl

theorem multicast_eq (n : Node) (payload : UInt32) : n.multicast payload =
    match n.agreement.create payload with
    | .error e => .error e
    | .ok (agreement, message, settlement) =>
      .ok (Node.publishAll { n with
        agreement, messages := n.messages.put message agreement.others } settlement.toList) := by
  rw [multicast, tryMulticast, Agreement.tryCreate_eq]
  cases n.agreement.create payload <;> rfl

/-- A multicast fails without a trace, or drafts the next message and tries to decide on it. -/
theorem multicast_cases (n : Node) (payload : UInt32) :
    (∃ e, n.agreement.create payload = .error e ∧ n.multicast payload = .error e) ∨
    ∃ m number settlement, n.agreement.create payload =
        .ok (((n.agreement.drafted m number).decide? m.id).1, m, settlement) ∧
      m.id.sender = n.agreement.self ∧ m.payload = payload ∧
      Agreement.after? n.agreement.created = some m.id.number ∧
      Agreement.after? n.agreement.latest = some number ∧
      settlement = ((n.agreement.drafted m number).decide? m.id).2 ∧
      n.multicast payload = .ok ((n.drafted m number).conclude m.id) := by
  cases outcome : n.agreement.create payload with
  | error e => exact .inl ⟨e, rfl, by rw [multicast_eq, outcome]⟩
  | ok created =>
    obtain ⟨a, m, s⟩ := created
    obtain ⟨count, number, hc, hn, hm, same⟩ := Agreement.create_eq_ok outcome
    obtain ⟨rfl, rfl⟩ : a = _ ∧ s = _ := ⟨congrArg Prod.fst same, congrArg Prod.snd same⟩
    obtain ⟨self, live⟩ := (n.agreement.drafted m number).decide?_frame m.id
    have others : ((n.agreement.drafted m number).decide? m.id).1.others = n.agreement.others := by
      rw [Agreement.others, self, live]
      rfl
    refine .inr ⟨m, number, _, rfl, by rw [hm], by rw [hm], by rw [hm]; exact hc, hn, rfl, ?_⟩
    rw [multicast_eq, outcome, conclude]
    simp only [others, drafted]

/-- A member that no longer waits for another one: neither for its acknowledgements nor for its
proposals. -/
def without (n : Node) (other : MemberId) : Node where
  group := n.group
  faults := n.faults
  agreement := { n.agreement with live := n.agreement.live.erase other }
  messages := (n.messages.forget other).1
  decisions := (n.decisions.forget other).1

/-- Only the removal of another live member can decide anything. -/
theorem remove_cases (n : Node) (other : MemberId) :
    ((other = n.agreement.self ∨ other ∉ n.agreement.live) ∧
      n.agreement.remove other = (n.agreement, []) ∧
      n.remove other = ({ n.without other with agreement := n.agreement }, [])) ∨
    other ≠ n.agreement.self ∧
      n.agreement.remove other =
        (n.without other).agreement.decideAll n.agreement.ballots.keys ∧
      n.remove other = (n.without other).concludeAll n.agreement.ballots.keys := by
  by_cases idle : other = n.agreement.self ∨ other ∉ n.agreement.live
  · have same : n.agreement.remove other = (n.agreement, []) := if_pos idle
    refine .inl ⟨idle, same, ?_⟩
    rw [remove, same]
    rfl
  · have drops : n.agreement.remove other =
        (n.without other).agreement.decideAll n.agreement.ballots.keys := if_neg idle
    refine .inr ⟨fun self => idle (.inl self), drops, ?_⟩
    rw [remove, drops, ← publishAll_decideAll]
    rfl

@[simp] theorem agreement_publishAll (n : Node) (settlements : List Settlement) :
    (n.publishAll settlements).1.agreement = n.agreement := by
  rw [publishAll_eq]

theorem change_multicast {n k : Node} {payload : UInt32} {delivered : List Message}
    (ok : n.multicast payload = .ok (k, delivered)) : n.agreement.Change k.agreement := by
  rw [multicast_eq] at ok
  split at ok
  · cases ok
  · rename_i created
    obtain rfl : (publishAll _ _).1 = k := congrArg Prod.fst (Except.ok.inj ok)
    rw [agreement_publishAll]
    exact Agreement.change_create created

theorem change_remove (n : Node) (other : MemberId) :
    n.agreement.Change (n.remove other).1.agreement := by
  have called : (n.remove other).1.agreement = n.agreement.perform (.remove other) := by
    rw [remove, agreement_publishAll]
    rfl
  rw [called]
  exact n.agreement.change_perform _

theorem change_handle (n : Node) (r : Record) :
    n.agreement.Change (n.handle r).1.agreement := by
  cases r with
  | message m => exact n.agreement.change_perform (.propose m)
  | proposal x =>
    rw [handle, takeProposal_eq]
    cases (n.acknowledgeMessage x).2 with
    | true =>
      have called : (conclude { (n.acknowledgeMessage x).1 with
          agreement := n.agreement.tallied x } x.id).1.agreement =
          ((n.agreement.tallied x).decide? x.id).1 := by rw [conclude_eq]
      rw [if_pos rfl, called]
      exact .tallied x
    | false => exact .same
  | decision d => exact n.agreement.change_perform (.follow d)
  | receipt r => exact .same
  | marker sender => exact .same

theorem publishAll_frame (n : Node) (settlements : List Settlement) :
    (n.publishAll settlements).1.group = n.group ∧
      (n.publishAll settlements).1.faults = n.faults := by
  rw [publishAll_eq]
  exact ⟨rfl, rfl⟩

theorem multicast_frame {n k : Node} {payload : UInt32} {delivered : List Message}
    (ok : n.multicast payload = .ok (k, delivered)) : k.group = n.group ∧ k.faults = n.faults := by
  rw [multicast_eq] at ok
  split at ok
  · cases ok
  · obtain rfl : (publishAll _ _).1 = k := congrArg Prod.fst (Except.ok.inj ok)
    exact publishAll_frame _ _

theorem remove_frame (n : Node) (other : MemberId) :
    (n.remove other).1.group = n.group ∧ (n.remove other).1.faults = n.faults :=
  publishAll_frame { n.without other with agreement := (n.agreement.remove other).1 } _

/-- Whatever a member handles, it stays in its group and keeps its faults. -/
theorem handle_frame (n : Node) (r : Record) :
    (n.handle r).1.group = n.group ∧ (n.handle r).1.faults = n.faults := by
  cases r with
  | message m => exact ⟨rfl, rfl⟩
  | proposal x =>
    have taken : (n.takeProposal x).1.group = n.group ∧ (n.takeProposal x).1.faults = n.faults := by
      rw [takeProposal_eq]
      split
      · rw [conclude_eq]
        exact ⟨rfl, rfl⟩
      · exact ⟨rfl, rfl⟩
    exact taken
  | decision d => exact ⟨rfl, rfl⟩
  | receipt r => exact ⟨rfl, rfl⟩
  | marker sender => exact ⟨rfl, rfl⟩

/-- Whether a record is neither refused nor discarded. -/
def accepts (n : Node) (draws : Draws) (source : Address) (r : Record) : Bool :=
  match n.group.memberAt source with
  | none => false
  | some member => n.admits member r && !(n.faults.drops draws).1

/-- A record that is not accepted has no effect, and one that is accepted is handled. -/
theorem receive_cases (n : Node) (draws : Draws) (source : Address) (r : Record) :
    (n.accepts draws source r = false ∧ (n.receive draws source r).1 = n ∧
      (n.receive draws source r).2.1 = ⟨[], none⟩) ∨
    (n.accepts draws source r = true ∧ (n.receive draws source r).1 = (n.handle r).1 ∧
      (n.receive draws source r).2.1 = (n.handle r).2) := by
  unfold accepts receive
  cases n.group.memberAt source with
  | none => exact .inl ⟨rfl, rfl, rfl⟩
  | some member =>
    dsimp only
    cases n.admits member r with
    | false => exact .inl ⟨rfl, rfl, rfl⟩
    | true =>
      obtain ⟨dropped, left⟩ := n.faults.drops draws
      cases dropped with
      | true => exact .inl ⟨rfl, rfl, rfl⟩
      | false => exact .inr ⟨rfl, rfl, rfl⟩

theorem receive_frame (n : Node) (draws : Draws) (source : Address) (r : Record) :
    (n.receive draws source r).1.group = n.group ∧
      (n.receive draws source r).1.faults = n.faults := by
  rcases n.receive_cases draws source r with ⟨-, after, -⟩ | ⟨-, after, -⟩
  · rw [after]
    exact ⟨rfl, rfl⟩
  · rw [after]
    exact n.handle_frame r

theorem admits_of_accepts {n : Node} {draws : Draws} {source : Address} {member : MemberId}
    {r : Record} (here : n.group.memberAt source = some member)
    (taken : n.accepts draws source r = true) : n.admits member r = true := by
  rw [accepts, here, Bool.and_eq_true] at taken
  exact taken.1

/-- A datagram arrives. Unless it holds a record, it has no effect. -/
def hear (n : Node) (draws : Draws) (source : Address) (bytes : Bytes) :
    Node × Reaction × Draws :=
  match Record.decode bytes with
  | .error _ => (n, ⟨[], none⟩, draws)
  | .ok r => n.receive draws source r

/-- No open ballot is complete. -/
def Stalled (n : Node) : Prop := ∀ id, n.agreement.Stalled id

theorem Stalled.change {n k : Node} (h : n.Stalled) (member : n.agreement.self ∈ n.agreement.live)
    (change : n.agreement.Change k.agreement) : k.Stalled :=
  Agreement.stalled_change member h change

end Concord.Node
