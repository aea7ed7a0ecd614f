import Concord.Proofs.Order.Agreement
import Concord.Proofs.Retry.Outbox
import Concord.Proofs.World.Ledger

/-!
What one member still sends, measured against the history. As long as a ballot is open, its message
is owed to exactly the live members that are missing from it, and a decision is owed to every live
member that has not learned it: a member with nothing left to send has nothing left to do.
-/

namespace Concord

structure Polling (H : List Event) (a : Agreement) (messages : Outbox Message) : Prop where
  sound : messages.Sound
  ballot_own : ∀ id b, a.ballots.get? id = some b → id.sender = a.self
  ballot_sent : ∀ id b, a.ballots.get? id = some b → ∃ m, .sent m ∈ H ∧ m.id = id
  undecided : ∀ id b, a.ballots.get? id = some b → ∀ d l, .decided d l ∈ H → d.id ≠ id
  cast_proposed : ∀ id b, a.ballots.get? id = some b →
    ∀ r k, b.get? r = some k → .proposed ⟨id, ⟨k, r⟩⟩ ∈ H
  cast_self : ∀ id b, a.ballots.get? id = some b → ∃ k, b.get? a.self = some k
  numbered : ∀ m, .sent m ∈ H → m.id.sender = a.self → m.id.number ≤ a.created
  /-- An own message has an open ballot until it is decided. -/
  polled : ∀ m, .sent m ∈ H → m.id.sender = a.self →
    (∃ b, a.ballots.get? m.id = some b) ∨ ∃ d l, .decided d l ∈ H ∧ d.id = m.id
  /-- A message is owed to the live members that are missing from its ballot. -/
  due : ∀ m r, messages.Owes m r ↔ .sent m ∈ H ∧ r ∈ a.live ∧
    ∃ b, a.ballots.get? m.id = some b ∧ b.get? r = none

namespace Polling

variable {roster : Roster} {H K : List Event} {a b : Agreement} {messages : Outbox Message}

theorem start (self : MemberId) (members : List MemberId) :
    Polling [] (.start self members) .empty where
  sound := Outbox.sound_empty
  ballot_own _ _ h := by cases h
  ballot_sent _ _ h := by cases h
  undecided _ _ h := by cases h
  cast_proposed _ _ h := by cases h
  cast_self _ _ h := by cases h
  numbered _ h := by cases h
  polled _ h := by cases h
  due m r := ⟨fun h => absurd h (Outbox.not_owes_empty m r), fun h => by cases h.1⟩

/-- What others do, and what the member itself proposes or learns, does not matter here. -/
theorem mono (h : Polling H a messages) (grows : ∀ e ∈ H, e ∈ K)
    (sent : ∀ m, .sent m ∈ K → m.id.sender = a.self → .sent m ∈ H)
    (decided : ∀ d l, .decided d l ∈ K → d.id.sender = a.self → .decided d l ∈ H) :
    Polling K a messages := by
  have same : ∀ m, m.id.sender = a.self → (.sent m ∈ K ↔ .sent m ∈ H) :=
    fun m own => ⟨fun hm => sent m hm own, grows _⟩
  obtain ⟨sound, ballot_own, ballot_sent, undecided, cast_proposed, cast_self, numbered, polled,
    due⟩ := h
  constructor
  case due =>
    intro m r
    rw [due]
    constructor
    · rintro ⟨hm, missing⟩
      exact ⟨grows _ hm, missing⟩
    · rintro ⟨hm, live, b, found, absent⟩
      exact ⟨(same m (ballot_own m.id b found)).mp hm, live, b, found, absent⟩
  all_goals grind

/-- Only the member itself, the live members, its count and its ballots matter here. -/
theorem frame (h : Polling H a messages) (same : b.self = a.self ∧ b.live = a.live ∧
    b.created = a.created ∧ b.ballots = a.ballots) : Polling H b messages := by
  obtain ⟨self, live, created, ballots⟩ := same
  constructor <;> grind [Polling]

/-- The next message of a member has a new id. -/
theorem unsent (h : Polling H a messages) {m : Message} (own : m.id.sender = a.self)
    (next : Agreement.after? a.created = some m.id.number) : ∀ k, .sent k ∈ H → k.id ≠ m.id := by
  intro k hk same
  have lt := Agreement.lt_after next (h.numbered k hk (same ▸ own))
  rw [same] at lt
  exact UInt32.lt_irrefl _ lt

/-- A new message is owed to all other live members. -/
theorem draft (h : Polling H a messages) (ledger : Ledger roster H) {m : Message} (number : UInt32)
    (own : m.id.sender = a.self) (next : Agreement.after? a.created = some m.id.number) :
    Polling (H ++ [.sent m] ++ [.proposed ⟨m.id, ⟨number, a.self⟩⟩]) (a.drafted m number)
      (messages.put m a.others) := by
  have new := h.unsent own next
  have undecided' : ∀ d l, .decided d l ∈ H → d.id ≠ m.id := by
    intro d l hd same
    obtain ⟨k, hk, about⟩ := ledger.decided_sent hd
    exact new k hk (about.trans same)
  have above : ∀ k, .sent k ∈ H → k.id.sender = a.self → k.id.number ≤ m.id.number :=
    fun k hk hs => UInt32.le_of_lt (Agreement.lt_after next (h.numbered k hk hs))
  have fits : (messages.put m a.others).Sound :=
    Outbox.sound_put h.sound a.others fun k r owes => new k ((h.due k r).mp owes).1
  have owes : ∀ k r, (messages.put m a.others).Owes k r ↔
      messages.Owes k r ∨ k = m ∧ r ∈ a.others := fun k r => Outbox.owes_put
  have others : ∀ r, r ∈ a.others ↔ r ∈ a.live ∧ r ≠ a.self := by
    intro r
    rw [Agreement.others, List.mem_filter, decide_eq_true_eq, Roll.mem_iff]
  have ballots : ∀ id, (a.drafted m number).ballots.get? id =
      if m.id = id then some (Table.empty.put a.self number) else a.ballots.get? id :=
    fun id => Table.get?_put _ _ _ _
  have here := (ballots m.id).trans (if_pos rfl)
  have first : ∀ r, (Table.empty.put a.self number : Ballot).get? r =
      if a.self = r then some number else none := fun r => Table.get?_put _ _ _ _
  have drafted : (a.drafted m number).self = a.self ∧ (a.drafted m number).live = a.live ∧
      (a.drafted m number).created = m.id.number := ⟨rfl, rfl, rfl⟩
  obtain ⟨-, ballot_own, ballot_sent, undecided, cast_proposed, cast_self, numbered, polled,
    due⟩ := h
  constructor
  case due =>
    intro k r
    rw [owes, due]
    constructor
    · rintro (⟨hk, live, b, found, absent⟩ | ⟨rfl, listed⟩)
      · have elsewhere := (ballots k.id).trans (if_neg (Ne.symm (new k hk)))
        exact ⟨by simp [hk], live, b, elsewhere.trans found, absent⟩
      · obtain ⟨live, other⟩ := (others r).mp listed
        exact ⟨by simp, live, _, here, (first r).trans (if_neg (Ne.symm other))⟩
    · rintro ⟨hk, live, b, found, absent⟩
      rcases (by simpa using hk : .sent k ∈ H ∨ k = m) with old | rfl
      · rw [ballots, if_neg (Ne.symm (new k old))] at found
        exact .inl ⟨old, live, b, found, absent⟩
      · -- of its own proposal the ballot knows from the start
        obtain rfl := Option.some.inj (here.symm.trans found)
        refine .inr ⟨rfl, (others r).mpr ⟨live, fun self => ?_⟩⟩
        rw [first, if_pos self.symm] at absent
        cases absent
  all_goals grind [UInt32.le_refl]

/-- A proposal that the message was still owed for counts in its ballot. -/
theorem tally (h : Polling H a messages) {x : Proposal} {m : Message} (proposed : .proposed x ∈ H)
    (about : m.id = x.id) (owed : messages.Owes m x.stamp.proposer) :
    Polling H (a.tallied x) (messages.acknowledge x.id x.stamp.proposer).1 := by
  obtain ⟨-, -, b, found, -⟩ := (h.due m _).mp owed
  rw [about] at found
  have cast : .proposed ⟨x.id, ⟨x.stamp.number, x.stamp.proposer⟩⟩ ∈ H := proposed
  have fits := Outbox.sound_acknowledge h.sound x.id x.stamp.proposer
  have owes : ∀ k r, (messages.acknowledge x.id x.stamp.proposer).1.Owes k r ↔
      messages.Owes k r ∧ ¬ (k.id = x.id ∧ r = x.stamp.proposer) :=
    fun k r => Outbox.owes_acknowledge h.sound
  have ballots : ∀ id, (a.tallied x).ballots.get? id =
      if x.id = id then some (b.put x.stamp.proposer x.stamp.number) else a.ballots.get? id := by
    intro id
    rw [Agreement.tallied_eq found]
    exact Table.get?_put _ _ _ _
  have same : (a.tallied x).self = a.self ∧ (a.tallied x).live = a.live ∧
      (a.tallied x).created = a.created := by
    rw [Agreement.tallied_eq found]
    exact ⟨rfl, rfl, rfl⟩
  have here := (ballots x.id).trans (if_pos rfl)
  have filled : ∀ r, (b.put x.stamp.proposer x.stamp.number).get? r =
      if x.stamp.proposer = r then some x.stamp.number else b.get? r := fun r => Table.get?_put _ _ _ _
  obtain ⟨-, ballot_own, ballot_sent, undecided, cast_proposed, cast_self, numbered, polled,
    due⟩ := h
  constructor
  case due =>
    intro k r
    rw [owes, due, ballots, same.2.1]
    by_cases counted : x.id = k.id
    · rw [if_pos counted, ← counted, found]
      constructor
      · rintro ⟨⟨hk, live, c, ⟨⟩, absent⟩, other⟩
        have kept : x.stamp.proposer ≠ r := fun same => other ⟨rfl, same.symm⟩
        exact ⟨hk, live, _, rfl, (filled r).trans ((if_neg kept).trans absent)⟩
      · rintro ⟨hk, live, c, ⟨⟩, absent⟩
        rw [filled] at absent
        split at absent
        · cases absent
        · rename_i kept
          exact ⟨⟨hk, live, b, rfl, absent⟩, fun gone => kept gone.2.symm⟩
    · rw [if_neg counted]
      exact ⟨And.left, fun h => ⟨h, fun gone => counted gone.1.symm⟩⟩
  all_goals grind

/-- An acknowledgement that nobody waits for changes nothing. -/
theorem unawaited (h : Polling H a messages) {id : MessageId} {r : MemberId}
    (none : ∀ m : Message, m.id = id → ¬ messages.Owes m r) :
    Polling H a (messages.acknowledge id r).1 := by
  have fits := Outbox.sound_acknowledge h.sound id r
  have owes : ∀ k q, (messages.acknowledge id r).1.Owes k q ↔
      messages.Owes k q ∧ ¬ (k.id = id ∧ q = r) := fun k q => Outbox.owes_acknowledge h.sound
  obtain ⟨-, ballot_own, ballot_sent, undecided, cast_proposed, cast_self, numbered, polled,
    due⟩ := h
  constructor
  case due =>
    intro k q
    rw [owes, ← due]
    exact ⟨And.left, fun h => ⟨h, fun ⟨about, same⟩ => none k about (same ▸ h)⟩⟩
  all_goals grind

/-- When a ballot closes, its message is owed to nobody any more. -/
theorem close (h : Polling H a messages) {id : MessageId} {b : Ballot}
    (found : a.ballots.get? id = some b) (whole : ∀ r ∈ a.live, ∃ k, b.get? r = some k)
    (s : Stamp) (audience : List MemberId) :
    Polling (H ++ [.decided ⟨id, s⟩ audience] ++ [.learned a.self ⟨id, s⟩])
      (a.closed id) messages := by
  have ballots : ∀ k, (a.closed id).ballots.get? k = if id = k then none else a.ballots.get? k :=
    fun k => Table.get?_erase _ _ _
  have same : (a.closed id).self = a.self ∧ (a.closed id).live = a.live ∧
      (a.closed id).created = a.created := ⟨rfl, rfl, rfl⟩
  obtain ⟨sound, ballot_own, ballot_sent, undecided, cast_proposed, cast_self, numbered, polled,
    due⟩ := h
  constructor
  case due =>
    intro k r
    rw [due]
    constructor
    · rintro ⟨hk, live, c, open_, absent⟩
      have other : id ≠ k.id := by
        rintro rfl
        obtain ⟨n, cast⟩ := whole r live
        obtain rfl := Option.some.inj (found.symm.trans open_)
        cases cast.symm.trans absent
      have elsewhere := (ballots k.id).trans (if_neg other)
      exact ⟨by simp [hk], live, c, elsewhere.trans open_, absent⟩
    · rintro ⟨hk, live, c, open_, absent⟩
      rw [ballots] at open_
      split at open_
      · cases open_
      · exact ⟨by simpa using hk, live, c, open_, absent⟩
  all_goals grind

/-- Whoever is forgotten is live no more, or had proposed. -/
theorem forget (h : Polling H a messages) {other : MemberId} {rest : Roll MemberId}
    (fewer : ∀ r ∈ rest, r ∈ a.live ∧ (r ≠ other ∨ r = a.self))
    (same : ∀ r ∈ a.live, r ≠ other → r ∈ rest) :
    Polling H { a with live := rest } (messages.forget other).1 := by
  have fits := Outbox.sound_forget h.sound other
  have owes : ∀ k r, (messages.forget other).1.Owes k r ↔ messages.Owes k r ∧ r ≠ other :=
    fun k r => Outbox.owes_forget
  obtain ⟨-, ballot_own, ballot_sent, undecided, cast_proposed, cast_self, numbered, polled,
    due⟩ := h
  constructor
  case due =>
    intro k r
    rw [owes, due]
    constructor
    · rintro ⟨⟨hk, live, missing⟩, kept⟩
      exact ⟨hk, same r live kept, missing⟩
    · rintro ⟨hk, left, b, found, absent⟩
      obtain ⟨live, kept⟩ := fewer r left
      refine ⟨⟨hk, live, b, found, absent⟩, kept.elim (fun other => other) fun self => ?_⟩
      obtain ⟨n, cast⟩ := cast_self k.id b found
      rw [← self, absent] at cast
      cases cast
  all_goals grind

end Polling

/-- A decision was made for all members that are live now, and each of them learns it. -/
structure Publishing (H : List Event) (p : MemberId) (live : Roll MemberId)
    (decisions : Outbox Decision) : Prop where
  sound : decisions.Sound
  owed : ∀ d r, decisions.Owes d r → r ≠ p ∧ d.id.sender = p ∧ ∃ l, .decided d l ∈ H ∧ r ∈ l
  audience : ∀ d l r, .decided d l ∈ H → d.id.sender = p → r ∈ live →
    r ∈ l ∧ (decisions.Owes d r ∨ .learned r d ∈ H)

namespace Publishing

variable {roster : Roster} {H K : List Event} {p : MemberId} {live : Roll MemberId}
  {decisions : Outbox Decision}

theorem start (p : MemberId) (live : Roll MemberId) : Publishing [] p live .empty where
  sound := Outbox.sound_empty
  owed d r h := absurd h (Outbox.not_owes_empty d r)
  audience _ _ _ h := by cases h

theorem mono (h : Publishing H p live decisions) (grows : ∀ e ∈ H, e ∈ K)
    (decided : ∀ d l, .decided d l ∈ K → d.id.sender = p → .decided d l ∈ H) :
    Publishing K p live decisions := by
  constructor <;> grind [Publishing]

theorem publish (h : Publishing H p live decisions) {d : Decision}
    (new : ∀ e l, .decided e l ∈ H → e.id ≠ d.id) (own : d.id.sender = p) :
    Publishing (H ++ [.decided d live.toList] ++ [.learned p d]) p live
      (decisions.put d (live.toList.filter (· ≠ p))) := by
  have fits : (decisions.put d (live.toList.filter (· ≠ p))).Sound := by
    apply Outbox.sound_put h.sound _
    intro e r owes
    obtain ⟨-, -, l, decided, -⟩ := h.owed e r owes
    exact new e l decided
  have owes : ∀ e r, (decisions.put d (live.toList.filter (· ≠ p))).Owes e r ↔
      decisions.Owes e r ∨ e = d ∧ r ∈ live ∧ r ≠ p := by
    intro e r
    rw [Outbox.owes_put, List.mem_filter, decide_eq_true_eq, Roll.mem_iff]
  obtain ⟨-, owed, audience⟩ := h
  constructor
  case audience =>
    intro e l r decided place present
    rcases (by simpa using decided : .decided e l ∈ H ∨ e = d ∧ l = live.toList) with
      old | ⟨rfl, rfl⟩
    · obtain ⟨listed, due | learned⟩ := audience e l r old place present
      · exact ⟨listed, .inl ((owes e r).mpr (.inl due))⟩
      · exact ⟨listed, .inr (by simp [learned])⟩
    · -- the member itself learns of its decision when it makes it
      by_cases self : r = p
      · exact ⟨present, .inr (by simp [self])⟩
      · exact ⟨present, .inl ((owes e r).mpr (.inr ⟨rfl, present, self⟩))⟩
  case owed =>
    intro e r due
    rcases (owes e r).mp due with old | ⟨rfl, present, other⟩
    · obtain ⟨other, place, l, decided, listed⟩ := owed e r old
      exact ⟨other, place, l, by simp [decided], listed⟩
    · exact ⟨other, own, live.toList, by simp, present⟩
  case sound => exact fits

/-- A receipt tells that its signer has learned the decision. -/
theorem confirm (h : Publishing H p live decisions) (ledger : Ledger roster H) {id : MessageId}
    {r : MemberId} {s : Stamp} (learned : .learned r ⟨id, s⟩ ∈ H) :
    Publishing H p live (decisions.acknowledge id r).1 := by
  have fits := Outbox.sound_acknowledge h.sound id r
  have owes : ∀ e q, (decisions.acknowledge id r).1.Owes e q ↔
      decisions.Owes e q ∧ ¬ (e.id = id ∧ q = r) := fun e q => Outbox.owes_acknowledge h.sound
  have same : ∀ e l, .decided e l ∈ H → e.id = id → e = ⟨id, s⟩ := by
    intro e l decided about
    obtain ⟨k, decided', -⟩ := ledger.learned_decided r _ learned
    exact ledger.decided_once e _ l k decided decided' about
  obtain ⟨-, owed, audience⟩ := h
  constructor
  case audience =>
    intro e l q decided place present
    obtain ⟨listed, due | learned'⟩ := audience e l q decided place present
    · by_cases struck : e.id = id ∧ q = r
      · obtain ⟨about, rfl⟩ := struck
        exact ⟨listed, .inr (same e l decided about ▸ learned)⟩
      · exact ⟨listed, .inl ((owes e q).mpr ⟨due, struck⟩)⟩
    · exact ⟨listed, .inr learned'⟩
  all_goals grind

/-- Whoever is forgotten is live no more, or was not owed anything. -/
theorem forget (h : Publishing H p live decisions) {other : MemberId} {rest : Roll MemberId}
    (fewer : ∀ r ∈ rest, r ∈ live ∧ (r ≠ other ∨ r = p)) :
    Publishing H p rest (decisions.forget other).1 := by
  have fits := Outbox.sound_forget h.sound other
  have owes : ∀ e r, (decisions.forget other).1.Owes e r ↔ decisions.Owes e r ∧ r ≠ other :=
    fun e r => Outbox.owes_forget
  obtain ⟨-, owed, audience⟩ := h
  constructor
  case audience =>
    intro e l r decided place left
    obtain ⟨present, kept⟩ := fewer r left
    obtain ⟨listed, due | learned⟩ := audience e l r decided place present
    · have foreign := (owed e r due).1
      exact ⟨listed, .inl ((owes e r).mpr ⟨due, kept.resolve_right foreign⟩)⟩
    · exact ⟨listed, .inr learned⟩
  all_goals grind

end Publishing

end Concord
