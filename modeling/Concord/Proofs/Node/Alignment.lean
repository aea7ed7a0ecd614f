import Concord.Proofs.Node.Interleaving
import Concord.Proofs.Order.Lacking
import Concord.Proofs.Retry.Outbox

/-!
What every turn of a member at work preserves. Whoever is missing from a ballot is about to be
asked, is asked again, or has its proposal between the halves, and in one of these ways only; and
whoever something waits for is live, or is just being forgotten.
-/

namespace Concord

/-- Which message a proposal is for, and whose it is. -/
def Proposal.key (x : Proposal) : MessageId × MemberId := (x.id, x.stamp.proposer)

namespace Desk

/-- The proposal of a member for a message is still to come: the member is owed the message, or its
proposal is between its halves, or the message is about to be put. -/
def Awaits (d : Desk) (id : MessageId) (r : MemberId) : Prop :=
  (∃ m, d.node.messages.Owes m r ∧ m.id = id) ∨
  (∃ x ∈ d.halves, x.id = id ∧ x.stamp.proposer = r) ∨
  ∃ m, d.duty.message? = some m ∧ m.id = id ∧ r ∈ d.node.agreement.others

structure Aligned (d : Desk) : Prop where
  sound : d.node.messages.Sound
  lacks : ∀ id r, d.node.agreement.Lacks id r ↔ r ∈ d.node.agreement.live ∧ d.Awaits id r
  numbered : ∀ id r, d.Awaits id r → id.number ≤ d.node.agreement.created
  /-- A proposal is awaited in one way only. -/
  once : (d.halves.map Proposal.key).Nodup
  apart : ∀ x ∈ d.halves, ∀ m, d.node.messages.Owes m x.stamp.proposer → m.id ≠ x.id
  fresh : ∀ m, d.duty.message? = some m →
    (∀ k r, d.node.messages.Owes k r → k.id ≠ m.id) ∧ ∀ x ∈ d.halves, x.id ≠ m.id
  owed_live : ∀ m r, d.node.messages.Owes m r →
    r ∈ d.node.agreement.live ∨ d.duty.forgetting? = some r
  announced_live : ∀ e r, d.node.decisions.Owes e r →
    r ∈ d.node.agreement.live ∨ d.duty.leaving? = some r
  leaving : ∀ other, d.duty.leaving? = some other →
    other = d.node.agreement.self ∨ other ∉ d.node.agreement.live

/-- Every turn is at most one call of the agreement. -/
theorem change_turn (d : Desk) (t : Turn) :
    d.node.agreement.Change (d.turn t).node.agreement := by
  cases t with
  | multicast payload =>
    dsimp only [turn]
    split
    · exact .same
    · rename_i created
      split
      · exact Agreement.change_create created
      · exact .same
  | remove other =>
    dsimp only [turn]
    split
    · exact d.node.agreement.change_perform (.remove other)
    · exact .same
  | receive r =>
    dsimp only [turn, receive]
    split
    · exact .same
    · split
      · exact .same
      · exact d.node.change_handle r
  | count x =>
    dsimp only [turn]
    split
    · exact d.node.agreement.change_perform (.count x)
    · exact .same
  | work =>
    dsimp only [turn, work]
    split <;> exact .same

namespace Aligned

variable {d : Desk}

theorem start (g : Group) (faults : Faults) :
    (Desk.start ⟨g, faults, .start g.self g.ids, .empty, .empty⟩).Aligned where
  sound := Outbox.sound_empty
  lacks id r := by
    constructor
    · rintro ⟨-, b, none, -⟩
      cases none
    · rintro ⟨-, ⟨m, owes, -⟩ | ⟨x, hx, -⟩ | ⟨m, none, -⟩⟩
      · exact absurd owes (Outbox.not_owes_empty m r)
      · cases hx
      · cases none
  numbered id r := by
    rintro (⟨m, owes, -⟩ | ⟨x, hx, -⟩ | ⟨m, none, -⟩)
    · exact absurd owes (Outbox.not_owes_empty m r)
    · cases hx
    · cases none
  once := .nil
  apart _ hx := by cases hx
  fresh _ none := by cases none
  owed_live m r owes := absurd owes (Outbox.not_owes_empty m r)
  announced_live e r owes := absurd owes (Outbox.not_owes_empty e r)
  leaving _ none := by cases none

/-- Who else proposes, and what is delivered or followed, does not matter here. -/
theorem frame (h : d.Aligned) {node : Node} (log : List Message)
    (self : node.agreement.self = d.node.agreement.self)
    (live : node.agreement.live = d.node.agreement.live)
    (created : node.agreement.created = d.node.agreement.created)
    (ballots : node.agreement.ballots = d.node.agreement.ballots)
    (messages : node.messages = d.node.messages)
    (decisions : ∀ e r, node.decisions.Owes e r → d.node.decisions.Owes e r) :
    { d with node, log }.Aligned := by
  have others : node.agreement.others = d.node.agreement.others := by
    rw [Agreement.others, Agreement.others, self, live]
  have awaits : ∀ id r, { d with node, log }.Awaits id r ↔ d.Awaits id r := by
    intro id r
    simp only [Awaits, messages, others]
  constructor
  case sound =>
    rw [messages]
    exact h.sound
  case lacks =>
    intro id r
    rw [awaits, Agreement.lacks_frame live ballots, live]
    exact h.lacks id r
  case numbered =>
    intro id r due
    rw [created]
    exact h.numbered id r ((awaits id r).mp due)
  case once => exact h.once
  case apart =>
    rw [messages]
    exact h.apart
  case fresh =>
    rw [messages]
    exact h.fresh
  case owed_live =>
    rw [messages, live]
    exact h.owed_live
  case announced_live =>
    intro e r owes
    rw [live]
    exact h.announced_live e r (decisions e r owes)
  case leaving =>
    rw [self, live]
    exact h.leaving

/-- The first half of taking a proposal hands it over from the outbox to the second half. -/
theorem acknowledge (h : d.Aligned) (x : Proposal) : (d.receive (.proposal x)).Aligned := by
  rcases Outbox.acknowledge_cases h.sound x.id x.stamp.proposer with
    none | ⟨awaited, m, about, owed⟩
  · have same : d.node.acknowledgeMessage x = (d.node, false) := by
      rw [Node.acknowledgeMessage, none]
    have unchanged : d.receive (.proposal x) = d := by
      simp only [receive, same, Bool.false_eq_true, if_false]
    rw [unchanged]
    exact h
  · have about : m.id = x.id := about
    have awaited : (d.node.acknowledgeMessage x).2 = true := awaited
    have received : d.receive (.proposal x) =
        { d with node := (d.node.acknowledgeMessage x).1, halves := d.halves ++ [x] } := by
      simp only [receive, awaited, if_true]
    have owes : ∀ k r, (d.node.acknowledgeMessage x).1.messages.Owes k r ↔
        d.node.messages.Owes k r ∧ ¬ (k.id = x.id ∧ r = x.stamp.proposer) :=
      fun k r => Outbox.owes_acknowledge h.sound
    have awaits : ∀ id r, { d with
        node := (d.node.acknowledgeMessage x).1, halves := d.halves ++ [x] }.Awaits id r ↔
        d.Awaits id r := by
      intro id r
      constructor
      · rintro (⟨k, owes', rfl⟩ | ⟨y, hy, rfl, rfl⟩ | new)
        · exact .inl ⟨k, ((owes k r).mp owes').1, rfl⟩
        · rcases List.mem_append.mp hy with old | last
          · exact .inr (.inl ⟨y, old, rfl, rfl⟩)
          · rw [List.mem_singleton.mp last]
            exact .inl ⟨m, owed, about⟩
        · exact .inr (.inr new)
      · rintro (⟨k, owes', rfl⟩ | ⟨y, hy, rfl, rfl⟩ | new)
        · by_cases struck : k.id = x.id ∧ r = x.stamp.proposer
          · exact .inr (.inl ⟨x, List.mem_concat_self, struck.1.symm, struck.2.symm⟩)
          · exact .inl ⟨k, (owes k r).mpr ⟨owes', struck⟩, rfl⟩
        · exact .inr (.inl ⟨y, List.mem_append_left _ hy, rfl, rfl⟩)
        · exact .inr (.inr new)
    rw [received]
    constructor
    case sound => exact Outbox.sound_acknowledge h.sound x.id x.stamp.proposer
    case lacks =>
      intro id r
      rw [awaits]
      exact h.lacks id r
    case numbered =>
      intro id r due
      exact h.numbered id r ((awaits id r).mp due)
    case once =>
      have new : x.key ∉ d.halves.map Proposal.key := by
        intro listed
        obtain ⟨y, hy, same⟩ := List.mem_map.mp listed
        obtain ⟨same, voter⟩ := Prod.mk.inj same
        rw [← voter] at owed
        exact h.apart y hy m owed (about.trans same.symm)
      rw [List.map_append]
      refine List.nodup_append.mpr ⟨h.once, List.nodup_singleton _, fun k hk l hl same => ?_⟩
      rw [same, List.mem_singleton.mp hl] at hk
      exact new hk
    case apart =>
      intro y hy k owes'
      obtain ⟨before, kept⟩ := (owes k _).mp owes'
      rcases List.mem_append.mp hy with old | last
      · exact h.apart y old k before
      · obtain rfl := List.mem_singleton.mp last
        exact fun same => kept ⟨same, rfl⟩
    case fresh =>
      intro k put
      obtain ⟨unowed, unhalved⟩ := h.fresh k put
      refine ⟨fun i r owes' => unowed i r ((owes i r).mp owes').1, fun y hy => ?_⟩
      rcases List.mem_append.mp hy with old | last
      · exact unhalved y old
      · rw [List.mem_singleton.mp last, ← about]
        exact unowed m _ owed
    case owed_live => exact fun k r owes' => h.owed_live k r ((owes k r).mp owes').1
    case announced_live => exact h.announced_live
    case leaving => exact h.leaving

/-- The other records concern neither the ballots nor the messages that are owed. -/
theorem handle (h : d.Aligned) {r : Record} (other : r.kind ≠ .proposal) (log : List Message) :
    { d with node := (d.node.handle r).1, log }.Aligned := by
  cases r with
  | message m =>
    obtain ⟨self, live, created, ballots⟩ := d.node.agreement.propose_frame m
    exact h.frame log self live created ballots rfl fun e q owes => owes
  | proposal x => exact absurd rfl other
  | decision e =>
    obtain ⟨self, live, created, ballots⟩ := d.node.agreement.adopt_frame e
    exact h.frame log self live created ballots rfl fun e q owes => owes
  | receipt r =>
    exact h.frame log rfl rfl rfl rfl rfl fun e q owes => Outbox.owes_of_acknowledge owes
  | marker sender => exact h.frame log rfl rfl rfl rfl rfl fun e q owes => owes

theorem receive (h : d.Aligned) (r : Record) : (d.receive r).Aligned := by
  rcases d.receive_cases r with ⟨x, rfl⟩ | same | ⟨other, handled⟩
  · exact h.acknowledge x
  · rw [same]
    exact h
  · rw [handled]
    exact h.handle other _

/-- Unless a removed member is just being forgotten, only live members are waited for. -/
theorem owed_present (h : d.Aligned) (calm : d.duty.forgetting? = none) {m : Message} {r : MemberId}
    (owes : d.node.messages.Owes m r) : r ∈ d.node.agreement.live := by
  apply (h.owed_live m r owes).resolve_right
  rw [calm]
  exact (Option.some_ne_none r).symm

theorem announced_present (h : d.Aligned) (calm : d.duty.leaving? = none) {e : Decision}
    {r : MemberId} (owes : d.node.decisions.Owes e r) : r ∈ d.node.agreement.live := by
  apply (h.announced_live e r owes).resolve_right
  rw [calm]
  exact (Option.some_ne_none r).symm

theorem present_of_free (h : d.Aligned) (free : d.duty = .free) :
    (∀ m r, d.node.messages.Owes m r → r ∈ d.node.agreement.live) ∧
    ∀ e r, d.node.decisions.Owes e r → r ∈ d.node.agreement.live := by
  have calm : d.duty.forgetting? = none ∧ d.duty.leaving? = none := by
    rw [free]
    exact ⟨rfl, rfl⟩
  exact ⟨fun _ _ owes => h.owed_present calm.1 owes,
    fun _ _ owes => h.announced_present calm.2 owes⟩

/-- With its second half a proposal is awaited no more, and the ballot has it. -/
theorem count (h : d.Aligned) (coherent : d.node.agreement.Coherent) (free : d.duty = .free)
    {x : Proposal} (hx : x ∈ d.halves) : (d.count x).Aligned := by
  have live := d.node.agreement.live_count x
  have change := d.node.agreement.change_perform (.count x)
  have distinct : d.halves.Nodup := h.once.of_map
  have differ : ∀ y ∈ d.halves, y.id = x.id → y.stamp.proposer = x.stamp.proposer → y = x := by
    intro y hy same voter
    exact List.inj_on_of_nodup_map h.once hy hx (Prod.ext same voter)
  have left : ∀ y, y ∈ d.halves.erase x ↔ y ≠ x ∧ y ∈ d.halves := fun y => distinct.mem_erase_iff
  obtain ⟨owed, announced⟩ := h.present_of_free free
  have awaits : ∀ id r, (d.count x).Awaits id r ↔
      d.Awaits id r ∧ ¬ (id = x.id ∧ r = x.stamp.proposer) := by
    intro id r
    constructor
    · rintro (⟨m, owes, rfl⟩ | ⟨y, hy, rfl, rfl⟩ | ⟨m, none, -⟩)
      · refine ⟨.inl ⟨m, owes, rfl⟩, ?_⟩
        rintro ⟨about, rfl⟩
        exact h.apart x hx m owes about
      · obtain ⟨other, old⟩ := (left y).mp hy
        refine ⟨.inr (.inl ⟨y, old, rfl, rfl⟩), ?_⟩
        rintro ⟨about, voter⟩
        exact other (differ y old about voter)
      · cases none
    · rintro ⟨⟨m, owes, rfl⟩ | ⟨y, hy, rfl, rfl⟩ | ⟨m, put, -⟩, kept⟩
      · exact .inl ⟨m, owes, rfl⟩
      · refine .inr (.inl ⟨y, (left y).mpr ⟨?_, hy⟩, rfl, rfl⟩)
        rintro rfl
        exact kept ⟨rfl, rfl⟩
      · rw [free] at put
        cases put
  constructor
  case sound => exact h.sound
  case lacks =>
    intro id r
    rw [awaits]
    change (d.node.agreement.count x).1.Lacks id r ↔ r ∈ (d.node.agreement.count x).1.live ∧ _
    rw [Agreement.lacks_count coherent.self_live, live, h.lacks, and_assoc]
  case numbered =>
    intro id r due
    exact UInt32.le_trans (h.numbered id r ((awaits id r).mp due).1) change.created_le
  case once => exact h.once.sublist (List.erase_sublist.map _)
  case apart => exact fun y hy => h.apart y ((left y).mp hy).2
  case fresh =>
    intro m none
    cases none
  case owed_live =>
    intro m r owes
    left
    change r ∈ (d.node.agreement.count x).1.live
    rw [live]
    exact owed _ r owes
  case announced_live =>
    intro e r owes
    left
    change r ∈ (d.node.agreement.count x).1.live
    rw [live]
    exact announced e r owes
  case leaving =>
    intro other none
    cases none

/-- A new message is lacked by exactly those to whom it is about to be sent. -/
theorem create (h : d.Aligned) (coherent : d.node.agreement.Coherent) (free : d.duty = .free)
    {payload : UInt32} {a : Agreement} {m : Message} {s : Option Settlement}
    (ok : d.node.agreement.create payload = .ok (a, m, s)) : (d.create a m s).Aligned := by
  obtain ⟨self, live, created, next⟩ := Agreement.create_frame ok
  obtain ⟨owed, announced⟩ := h.present_of_free free
  have others : a.others = d.node.agreement.others := by
    rw [Agreement.others, Agreement.others, self, live]
  have older : ∀ id r, d.Awaits id r → id ≠ m.id := by
    intro id r due same
    have lt := Agreement.lt_after next (h.numbered id r due)
    rw [same] at lt
    exact UInt32.lt_irrefl _ lt
  have awaits : ∀ id r, (d.create a m s).Awaits id r ↔
      d.Awaits id r ∨ id = m.id ∧ r ∈ d.node.agreement.others := by
    intro id r
    constructor
    · rintro (⟨k, owes, rfl⟩ | ⟨y, hy, rfl, rfl⟩ | ⟨k, put, rfl, listed⟩)
      · exact .inl (.inl ⟨k, owes, rfl⟩)
      · exact .inl (.inr (.inl ⟨y, hy, rfl, rfl⟩))
      · cases put
        exact .inr ⟨rfl, others ▸ listed⟩
    · rintro ((⟨k, owes, rfl⟩ | ⟨y, hy, rfl, rfl⟩ | ⟨k, put, -⟩) | ⟨rfl, listed⟩)
      · exact .inl ⟨k, owes, rfl⟩
      · exact .inr (.inl ⟨y, hy, rfl, rfl⟩)
      · rw [free] at put
        cases put
      · exact .inr (.inr ⟨m, rfl, rfl, others.symm ▸ listed⟩)
  constructor
  case sound => exact h.sound
  case lacks =>
    intro id r
    rw [awaits]
    change a.Lacks id r ↔ r ∈ a.live ∧ _
    rw [Agreement.lacks_create coherent.self_live ok, live, h.lacks]
    constructor
    · rintro (⟨rfl, listed⟩ | ⟨-, present, due⟩)
      · exact ⟨(Agreement.mem_others.mp listed).1, .inr ⟨rfl, listed⟩⟩
      · exact ⟨present, .inl due⟩
    · rintro ⟨present, due | new⟩
      · exact .inr ⟨older id r due, present, due⟩
      · exact .inl new
  case numbered =>
    intro id r due
    change id.number ≤ a.created
    rw [created]
    rcases (awaits id r).mp due with old | ⟨rfl, -⟩
    · exact UInt32.le_of_lt (Agreement.lt_after next (h.numbered id r old))
    · exact UInt32.le_refl _
  case once => exact h.once
  case apart => exact h.apart
  case fresh =>
    intro k put
    cases put
    constructor
    · exact fun i r owes => older i.id r (.inl ⟨i, owes, rfl⟩)
    · exact fun x hx => older x.id x.stamp.proposer (.inr (.inl ⟨x, hx, rfl, rfl⟩))
  case owed_live =>
    intro k r owes
    left
    change r ∈ a.live
    rw [live]
    exact owed _ r owes
  case announced_live =>
    intro e r owes
    left
    change r ∈ a.live
    rw [live]
    exact announced e r owes
  case leaving =>
    intro other none
    cases none

/-- A removed member is missed by no ballot any more, and both outboxes are about to forget it. -/
theorem remove (h : d.Aligned) (coherent : d.node.agreement.Coherent) (free : d.duty = .free)
    (other : MemberId) : (d.remove other).Aligned := by
  have change := d.node.agreement.change_perform (.remove other)
  obtain ⟨owed, announced⟩ := h.present_of_free free
  have live : ∀ r, r ∈ (d.node.agreement.remove other).1.live ↔
      r ∈ d.node.agreement.live ∧ (r ≠ other ∨ other = d.node.agreement.self) :=
    fun r => Agreement.mem_live_remove
  have present : ∀ r, r ∈ d.node.agreement.live →
      r ∈ (d.node.agreement.remove other).1.live ∨ some other = some r := by
    intro r here
    by_cases gone : r = other
    · exact .inr (congrArg some gone.symm)
    · exact .inl ((live r).mpr ⟨here, .inl gone⟩)
  have awaits : ∀ id r, (d.remove other).Awaits id r ↔ d.Awaits id r := by
    intro id r
    constructor
    · rintro (owes | half | ⟨m, none, -⟩)
      · exact .inl owes
      · exact .inr (.inl half)
      · cases none
    · rintro (owes | half | ⟨m, put, -⟩)
      · exact .inl owes
      · exact .inr (.inl half)
      · rw [free] at put
        cases put
  constructor
  case sound => exact h.sound
  case lacks =>
    intro id r
    rw [awaits]
    change (d.node.agreement.remove other).1.Lacks id r ↔
      r ∈ (d.node.agreement.remove other).1.live ∧ _
    rw [Agreement.lacks_remove coherent, live, h.lacks]
    constructor
    · rintro ⟨⟨here, due⟩, kept⟩
      exact ⟨⟨here, .inl kept⟩, due⟩
    · rintro ⟨⟨here, kept | own⟩, due⟩
      · exact ⟨⟨here, due⟩, kept⟩
      · -- a member that is told to remove itself has proposed for all its messages
        refine ⟨⟨here, due⟩, fun same => ?_⟩
        subst same
        have lacks := (h.lacks id r).mpr ⟨here, due⟩
        rw [own] at lacks
        exact coherent.not_lacks_self lacks
  case numbered =>
    intro id r due
    exact UInt32.le_trans (h.numbered id r ((awaits id r).mp due)) change.created_le
  case once => exact h.once
  case apart => exact h.apart
  case fresh =>
    intro m none
    cases none
  case owed_live => exact fun m r owes => present r (owed m r owes)
  case announced_live => exact fun e r owes => present r (announced e r owes)
  case leaving =>
    intro r leaves
    cases leaves
    change other = (d.node.agreement.remove other).1.self ∨ _
    rw [d.node.agreement.self_remove other]
    by_cases self : other = d.node.agreement.self
    · exact .inl self
    · right
      intro here
      rcases ((live other).mp here).2 with other | own
      · exact other rfl
      · exact self own

theorem put (h : d.Aligned) {m : Message} {rest : List Settlement} (duty : d.duty = .put m rest) :
    (d.put m rest).Aligned := by
  have message : d.duty.message? = some m := by
    rw [duty]
    rfl
  have calm : d.duty.forgetting? = none ∧ d.duty.leaving? = none := by
    rw [duty]
    exact ⟨rfl, rfl⟩
  obtain ⟨unowed, unhalved⟩ := h.fresh m message
  have owes : ∀ k r, (d.node.messages.put m d.node.agreement.others).Owes k r ↔
      d.node.messages.Owes k r ∨ k = m ∧ r ∈ d.node.agreement.others :=
    fun k r => Outbox.owes_put
  have awaits : ∀ id r, (d.put m rest).Awaits id r ↔ d.Awaits id r := by
    intro id r
    constructor
    · rintro (⟨k, owes', rfl⟩ | half | ⟨k, none, -⟩)
      · rcases (owes k r).mp owes' with old | ⟨rfl, listed⟩
        · exact .inl ⟨k, old, rfl⟩
        · exact .inr (.inr ⟨k, message, rfl, listed⟩)
      · exact .inr (.inl half)
      · cases none
    · rintro (⟨k, old, rfl⟩ | half | ⟨k, put, rfl, listed⟩)
      · exact .inl ⟨k, (owes k r).mpr (.inl old), rfl⟩
      · exact .inr (.inl half)
      · obtain rfl : m = k := Option.some.inj (message.symm.trans put)
        exact .inl ⟨m, (owes m r).mpr (.inr ⟨rfl, listed⟩), rfl⟩
  constructor
  case sound => exact Outbox.sound_put h.sound _ fun k r owes' => unowed k r owes'
  case lacks =>
    intro id r
    rw [awaits]
    exact h.lacks id r
  case numbered =>
    intro id r due
    exact h.numbered id r ((awaits id r).mp due)
  case once => exact h.once
  case apart =>
    intro x hx k owes'
    rcases (owes k _).mp owes' with old | ⟨rfl, -⟩
    · exact h.apart x hx k old
    · exact (unhalved x hx).symm
  case fresh =>
    intro k none
    cases none
  case owed_live =>
    intro k r owes'
    left
    rcases (owes k r).mp owes' with old | ⟨-, listed⟩
    · exact h.owed_present calm.1 old
    · exact (Agreement.mem_others.mp listed).1
  case announced_live => exact fun e r owes' => .inl (h.announced_present calm.2 owes')
  case leaving =>
    intro other none
    cases none

/-- Whoever is forgotten is lacked by no ballot. -/
theorem forgetMessages (h : d.Aligned) (coherent : d.node.agreement.Coherent) {other : MemberId}
    {rest : List Settlement} (duty : d.duty = .forgetMessages other rest) :
    (d.forgetMessages other rest).Aligned := by
  have leaves : d.duty.leaving? = some other := by
    rw [duty]
    rfl
  have owes : ∀ m r, (d.node.messages.forget other).1.Owes m r ↔
      d.node.messages.Owes m r ∧ r ≠ other := fun m r => Outbox.owes_forget
  have unlacked : ∀ id, ¬ d.node.agreement.Lacks id other := by
    intro id lacks
    rcases h.leaving other leaves with self | gone
    · rw [self] at lacks
      exact coherent.not_lacks_self lacks
    · exact gone lacks.1
  have before : ∀ id r, (d.forgetMessages other rest).Awaits id r → d.Awaits id r := by
    rintro id r (⟨m, owes', rfl⟩ | half | ⟨m, none, -⟩)
    · exact .inl ⟨m, ((owes m r).mp owes').1, rfl⟩
    · exact .inr (.inl half)
    · cases none
  constructor
  case sound => exact Outbox.sound_forget h.sound other
  case lacks =>
    intro id r
    change d.node.agreement.Lacks id r ↔ r ∈ d.node.agreement.live ∧ _
    constructor
    · intro lacks
      obtain ⟨present, due⟩ := (h.lacks id r).mp lacks
      refine ⟨present, ?_⟩
      rcases due with ⟨m, owed, rfl⟩ | half | ⟨m, put, -⟩
      · refine .inl ⟨m, (owes m r).mpr ⟨owed, fun same => ?_⟩, rfl⟩
        rw [same] at lacks
        exact unlacked m.id lacks
      · exact .inr (.inl half)
      · rw [duty] at put
        cases put
    · rintro ⟨present, due⟩
      exact (h.lacks id r).mpr ⟨present, before id r due⟩
  case numbered => exact fun id r due => h.numbered id r (before id r due)
  case once => exact h.once
  case apart => exact fun x hx m owes' => h.apart x hx m ((owes m _).mp owes').1
  case fresh =>
    intro m none
    cases none
  case owed_live =>
    intro m r owes'
    obtain ⟨old, kept⟩ := (owes m r).mp owes'
    left
    apply (h.owed_live m r old).resolve_right
    rw [duty]
    exact fun same => kept (Option.some.inj same).symm
  case announced_live =>
    have announced := h.announced_live
    rw [duty] at announced
    exact announced
  case leaving =>
    have leaving := h.leaving
    rw [duty] at leaving
    exact leaving

/-- Where only decisions are put or forgotten, it matters that they are for live members. -/
theorem announce (h : d.Aligned) (calm : d.duty.message? = none ∧ d.duty.forgetting? = none)
    {decisions : Outbox Decision} (rest : List Settlement) (log : List Message)
    (present : ∀ e r, decisions.Owes e r → r ∈ d.node.agreement.live) : Desk.Aligned
      { d with node := { d.node with decisions }, duty := .publish rest, log } := by
  have awaits : ∀ id r, Desk.Awaits
      { d with node := { d.node with decisions }, duty := .publish rest, log } id r ↔
      d.Awaits id r := by
    intro id r
    have nothing : (Duty.publish rest).message? = none := rfl
    simp only [Awaits, calm.1, nothing]
  constructor
  case sound => exact h.sound
  case lacks =>
    intro id r
    rw [awaits]
    exact h.lacks id r
  case numbered =>
    intro id r due
    exact h.numbered id r ((awaits id r).mp due)
  case once => exact h.once
  case apart => exact h.apart
  case fresh =>
    intro m none
    cases none
  case owed_live => exact fun m r owes => .inl (h.owed_present calm.2 owes)
  case announced_live => exact fun e r owes => .inl (present e r owes)
  case leaving =>
    intro other none
    cases none

theorem forgetDecisions (h : d.Aligned) {other : MemberId} {rest : List Settlement}
    (duty : d.duty = .forgetDecisions other rest) : (d.forgetDecisions other rest).Aligned := by
  apply h.announce (by rw [duty]; exact ⟨rfl, rfl⟩) rest d.log
  intro e r owes
  obtain ⟨old, kept⟩ := Outbox.owes_forget.mp owes
  apply (h.announced_live e r old).resolve_right
  rw [duty]
  exact fun same => kept (Option.some.inj same).symm

theorem publish (h : d.Aligned) {s : Settlement} {rest : List Settlement}
    (duty : d.duty = .publish (s :: rest)) : (d.publish s rest).Aligned := by
  apply h.announce (by rw [duty]; exact ⟨rfl, rfl⟩) rest (d.log ++ s.delivered)
  intro e r owes
  rcases Outbox.owes_put.mp owes with old | ⟨-, listed⟩
  · exact h.announced_present (by rw [duty]; rfl) old
  · exact (Agreement.mem_others.mp listed).1

theorem work (h : d.Aligned) (coherent : d.node.agreement.Coherent) : d.work.Aligned := by
  unfold Desk.work
  split
  · rename_i duty
    exact h.put duty
  · rename_i duty
    exact h.forgetMessages coherent duty
  · rename_i duty
    exact h.forgetDecisions duty
  · exact h
  · rename_i duty
    exact h.publish duty

theorem turn (h : d.Aligned) (coherent : d.node.agreement.Coherent) (t : Turn) :
    (d.turn t).Aligned := by
  cases t with
  | multicast payload =>
    dsimp only [Desk.turn]
    split
    · exact h
    · rename_i created
      split
      · rename_i free
        exact h.create coherent (Duty.isFree_iff.mp free) created
      · exact h
  | remove other =>
    dsimp only [Desk.turn]
    split
    · rename_i free
      exact h.remove coherent (Duty.isFree_iff.mp free) other
    · exact h
  | receive r => exact h.receive r
  | count x =>
    dsimp only [Desk.turn]
    split
    · rename_i ready
      exact h.count coherent (Duty.isFree_iff.mp ready.1) ready.2
    · exact h
  | work => exact h.work coherent

end Aligned

/-- What holds after any turns. -/
theorem aligned_run {d : Desk} (turns : List Turn) (aligned : d.Aligned)
    (coherent : d.node.agreement.Coherent) (stalled : d.node.Stalled) :
    (d.run turns).Aligned ∧ (d.run turns).node.agreement.Coherent ∧ (d.run turns).node.Stalled := by
  induction turns generalizing d with
  | nil => exact ⟨aligned, coherent, stalled⟩
  | cons t rest ih =>
    have change := d.change_turn t
    exact ih (aligned.turn coherent t) (coherent.change change)
      (stalled.change coherent.self_live change)

theorem live_run {d : Desk} (turns : List Turn) {r : MemberId}
    (present : r ∈ (d.run turns).node.agreement.live) : r ∈ d.node.agreement.live := by
  induction turns generalizing d with
  | nil => exact present
  | cons t rest ih => exact (d.change_turn t).live_subset (ih present)

theorem self_run (d : Desk) (turns : List Turn) :
    (d.run turns).node.agreement.self = d.node.agreement.self := by
  induction turns generalizing d with
  | nil => rfl
  | cons t rest ih => exact (ih (d.turn t)).trans (d.change_turn t).self

end Desk

end Concord
