import Concord.Proofs.World.Lawful

/-!
Runs of a cluster as lists of actions. What can be reached is what some list of actions reaches from
a fresh start, so a run can be carried out and not only reasoned about.
-/

namespace Concord

/-- What happens next is up to a user, an outbox or the network. -/
inductive Action where
  | multicast (p : MemberId) (payload : UInt32)
  | remove (p other : MemberId)
  /-- A member sends the datagram in a place of its next rounds. -/
  | transmit (p : MemberId) (place : Nat)
  /-- The network hands over the datagram in a place among all that were ever sent. -/
  | handOver (place : Nat) (draws : Draws)

namespace World

/-- Members that start with these settings. -/
def start (roster : Roster) (settings : MemberId → Settings) : World where
  node p :=
    ⟨roster.group p, .ofSettings (settings p), .start p roster.ids, .empty, .empty⟩
  log _ := []
  sent := []
  history := []

theorem fresh_start (roster : Roster) {settings : MemberId → Settings}
    (valid : ∀ p ∈ roster.ids, (settings p).check = .ok ()) :
    (start roster settings).Fresh roster := by
  refine ⟨fun p hp => ⟨settings p, ?_⟩, fun _ => rfl, rfl, rfl⟩
  have inside : (roster.group p).contains p = true := by
    obtain ⟨m, hm, same⟩ := List.mem_map.mp hp
    exact List.any_eq_true.mpr ⟨m, hm, decide_eq_true same⟩
  have self : (roster.group p).contains (roster.group p).self = true := inside
  rw [Node.start, valid p hp]
  exact if_pos self

/-- An action that is not possible has no effect. -/
def act (roster : Roster) (w : World) : Action → World
  | .multicast p payload => if p ∈ roster.ids then w.multicast p payload else w
  | .remove p other => if p ∈ roster.ids then w.remove p other else w
  | .transmit p place =>
    match roster.addressOf p, (w.node p).rounds[place]? with
    | some own, some (target, bytes) => w.change p (w.node p) [] [] [⟨own, target, bytes⟩]
    | _, _ => w
  | .handOver place draws =>
    match w.sent[place]? with
    | none => w
    | some d =>
      match roster.memberAt d.target with
      | none => w
      | some p => w.handOver p d draws

def run (roster : Roster) (w : World) (actions : List Action) : World :=
  actions.foldl (act roster) w

theorem act_eq_or_step (roster : Roster) (w : World) (a : Action) :
    w.act roster a = w ∨ Step roster w (w.act roster a) := by
  cases a with
  | multicast p payload =>
    by_cases member : p ∈ roster.ids
    · exact .inr (by rw [act, if_pos member]; exact .multicast member payload)
    · exact .inl (if_neg member)
  | remove p other =>
    by_cases member : p ∈ roster.ids
    · exact .inr (by rw [act, if_pos member]; exact .remove member other)
    · exact .inl (if_neg member)
  | transmit p place =>
    dsimp only [act]
    split
    · rename_i own target bytes here due
      exact .inr (.transmit here (List.mem_of_getElem? due))
    · exact .inl rfl
  | handOver place draws =>
    dsimp only [act]
    split
    · exact .inl rfl
    · rename_i d posted
      split
      · exact .inl rfl
      · rename_i p here
        exact .inr (.handOver (List.mem_of_getElem? posted) (Roster.memberAt_eq_some.mp here) draws)

theorem exists_action {roster : Roster} {w v : World} (step : Step roster w v) :
    ∃ a, v = w.act roster a := by
  cases step with
  | @multicast p member payload => exact ⟨.multicast p payload, (if_pos member).symm⟩
  | @remove p member other => exact ⟨.remove p other, (if_pos member).symm⟩
  | @transmit p own target bytes here due =>
    obtain ⟨place, found⟩ := List.mem_iff_getElem?.mp due
    exact ⟨.transmit p place, by simp only [act, here, found]⟩
  | @handOver p d posted here draws =>
    obtain ⟨place, found⟩ := List.mem_iff_getElem?.mp posted
    refine ⟨.handOver place draws, ?_⟩
    simp only [act, found, Roster.memberAt_eq_some.mpr here]

theorem Reachable.run {roster : Roster} {w : World} (h : Reachable roster w)
    (actions : List Action) : Reachable roster (w.run roster actions) := by
  induction actions generalizing w with
  | nil => exact h
  | cons a rest ih =>
    apply ih
    rcases w.act_eq_or_step roster a with same | step
    · exact same.symm ▸ h
    · exact .next h step

/-- History is only ever added to. -/
theorem Step.history_prefix {roster : Roster} {w v : World} (step : Step roster w v) :
    w.history <+: v.history := by
  cases step with
  | multicast member payload =>
    unfold World.multicast
    split
    · exact List.prefix_rfl
    · exact List.prefix_append _ _
  | remove member other => exact List.prefix_append _ _
  | transmit here due => exact List.prefix_append _ _
  | handOver posted here draws =>
    unfold World.handOver
    split
    · exact List.prefix_rfl
    · exact List.prefix_append _ _

theorem history_prefix_run (roster : Roster) (w : World) (actions : List Action) :
    w.history <+: (w.run roster actions).history := by
  induction actions generalizing w with
  | nil => exact List.prefix_rfl
  | cons a rest ih =>
    refine List.IsPrefix.trans ?_ (ih (w.act roster a))
    rcases w.act_eq_or_step roster a with same | step
    · exact same.symm ▸ List.prefix_rfl
    · exact step.history_prefix

theorem reachable_iff_run {roster : Roster} {w : World} :
    Reachable roster w ↔
      ∃ (v : World) (actions : List Action), v.Fresh roster ∧ w = v.run roster actions := by
  constructor
  · intro h
    induction h with
    | start fresh => exact ⟨_, [], fresh, rfl⟩
    | next _ step ih =>
      obtain ⟨v, actions, fresh, rfl⟩ := ih
      obtain ⟨a, rfl⟩ := exists_action step
      exact ⟨v, actions ++ [a], fresh, (List.foldl_concat ..).symm⟩
  · rintro ⟨v, actions, fresh, rfl⟩
    exact (Reachable.start fresh).run actions

theorem not_sent_of_mem_verdicts {a : Agreement} {settlements : List Settlement} {m : Message} :
    .sent m ∉ a.verdicts settlements := by
  simp [Agreement.verdicts]

theorem not_sent_of_mem_handleEvents {n : Node} {r : Record} {m : Message} :
    .sent m ∉ n.handleEvents r := by
  intro sent
  cases r with
  | message k => simp [Node.handleEvents] at sent
  | proposal x =>
    rw [Node.handleEvents] at sent
    dsimp only at sent
    split at sent
    · exact not_sent_of_mem_verdicts sent
    · cases sent
  | decision d => simp [Node.handleEvents] at sent
  | receipt r => cases sent
  | marker sender => cases sent

/-- Only a multicast sends a new message. -/
theorem sent_of_step {roster : Roster} {w v : World} (step : Step roster w v) {m : Message}
    (sent : .sent m ∈ v.history) : .sent m ∈ w.history ∨
      ∃ p payload a s, p ∈ roster.ids ∧ v = w.multicast p payload ∧
        (w.node p).agreement.create payload = .ok (a, m, s) := by
  cases step with
  | @multicast p member payload =>
    cases outcome : (w.node p).agreement.create payload with
    | error e =>
      have same : w.multicast p payload = w := by rw [multicast, Node.multicast_eq, outcome]
      exact .inl (same ▸ sent)
    | ok created =>
      obtain ⟨a, k, s⟩ := created
      have noted : (w.multicast p payload).history = w.history ++
          ([.sent k, .proposed ⟨k.id, ⟨(w.node p).agreement.latest + 1, (w.node p).self⟩⟩] ++
            a.verdicts s.toList) := by
        rw [multicast, Node.multicast_eq, outcome]
        simp only [change, Node.multicastEvents, outcome]
      rw [noted, List.mem_append, List.mem_append] at sent
      rcases sent with old | new | later
      · exact .inl old
      · obtain rfl : m = k := by simpa using new
        exact .inr ⟨p, payload, a, s, member, rfl, outcome⟩
      · exact absurd later not_sent_of_mem_verdicts
  | remove member other =>
    rcases List.mem_append.mp sent with old | new
    · exact .inl old
    · rcases List.mem_cons.mp new with none | new
      · cases none
      · exact absurd new not_sent_of_mem_verdicts
  | transmit here due => exact .inl (by simpa [change] using sent)
  | @handOver p d posted here draws =>
    unfold handOver at sent
    split at sent
    · exact .inl sent
    · rcases List.mem_append.mp sent with old | new
      · exact .inl old
      · split at new
        · exact absurd new not_sent_of_mem_handleEvents
        · cases new

/-- Whatever was sent was multicast by its sender with exactly this payload, earlier in the run. -/
theorem Reachable.origin {roster : Roster} {w : World} (h : Reachable roster w) {m : Message}
    (sent : .sent m ∈ w.history) : ∃ (v : World) (rest : List Action) (a : Agreement)
      (s : Option Settlement), Reachable roster v ∧ m.id.sender ∈ roster.ids ∧
        (v.node m.id.sender).agreement.create m.payload = .ok (a, m, s) ∧
        w = (v.multicast m.id.sender m.payload).run roster rest := by
  induction h with
  | start fresh =>
    rw [fresh.history_empty] at sent
    cases sent
  | @next w v before step ih =>
    rcases sent_of_step step sent with old | ⟨p, payload, a, s, member, rfl, created⟩
    · obtain ⟨u, rest, a, s, reachable, member, created, rfl⟩ := ih old
      obtain ⟨action, rfl⟩ := exists_action step
      exact ⟨u, rest ++ [action], a, s, reachable, member, created, (List.foldl_concat ..).symm⟩
    · obtain ⟨count, number, -, -, rfl, -⟩ := Agreement.create_eq_ok created
      have self := (before.lawful.seat p member).self
      rw [self] at created
      exact ⟨w, [], a, s, before, by rw [self]; exact member, by rw [self]; exact created,
        by rw [self]; rfl⟩

end World

/-- Two members on one machine. -/
def Roster.pair : Roster := .ofAddresses [.loopback 1, .loopback 2] (by decide) (by decide)

namespace World

def pair : World := start .pair fun _ => .standard

theorem reachable_pair (actions : List Action) : Reachable .pair (pair.run .pair actions) :=
  (Reachable.start (fresh_start .pair fun _ _ => rfl)).run actions

/-- A message, its proposal and its decision go back and forth once. -/
example : (pair.run .pair [.multicast ⟨1⟩ 7, .transmit ⟨1⟩ 0, .handOver 0 (.ofList []),
    .handOver 1 (.ofList []), .transmit ⟨1⟩ 0, .handOver 2 (.ofList [])]).log ⟨2⟩ =
      [⟨⟨⟨1⟩, 1⟩, 7⟩] := by decide +kernel

end World

end Concord
