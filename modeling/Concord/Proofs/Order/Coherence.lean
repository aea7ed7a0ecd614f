import Concord.Proofs.Order.Agreement

/-!
What holds of an agreement after any calls whatever, with any arguments: of members outside the
group, with numbers at either end of their range, with decisions that contradict each other or
proposals that nobody made. The order of the queue rests on `latest`: a new entry exceeds all
others, so it belongs where it is put.
-/

namespace Concord

/-- A call of an agreement. -/
inductive Operation where
  | create (payload : UInt32)
  | propose (m : Message)
  | count (p : Proposal)
  | follow (d : Decision)
  | remove (member : MemberId)

namespace Agreement

/-- The agreement after a call. -/
def perform (a : Agreement) : Operation → Agreement
  | .create payload => (a.tryCreate payload).1
  | .propose m => (a.propose m).1
  | .count p => (a.count p).1
  | .follow d => (a.follow d).1
  | .remove member => (a.remove member).1

def run (a : Agreement) (operations : List Operation) : Agreement := operations.foldl perform a

/-- The agreement of a member that does not wait for another one any more. -/
def without (a : Agreement) (other : MemberId) : Agreement := { a with live := a.live.erase other }

/-- What a call can do to an agreement. -/
inductive Change (a : Agreement) : Agreement → Prop
  | same : Change a a
  | drafted {m : Message} {number : UInt32} (own : m.id.sender = a.self)
      (created : after? a.created = some m.id.number) (next : after? a.latest = some number) :
      Change a ((a.drafted m number).decide? m.id).1
  | answered {m : Message} {number : UInt32} (foreign : m.id.sender ≠ a.self)
      (unanswered : a.answers.get? m.id = none) (undelivered : a.hasDelivered m.id = false)
      (next : after? a.latest = some number) : Change a (a.answered m number)
  | tallied (p : Proposal) : Change a ((a.tallied p).decide? p.id).1
  | adopted (d : Decision) : Change a (a.adopt d).1
  | removed {other : MemberId} (foreign : other ≠ a.self) :
      Change a ((a.without other).decideAll a.ballots.keys).1

theorem change_create {a a' : Agreement} {payload : UInt32} {m : Message} {s : Option Settlement}
    (ok : a.create payload = .ok (a', m, s)) : Change a a' := by
  obtain ⟨created, number, hc, hn, rfl, same⟩ := create_eq_ok ok
  obtain rfl : a' = _ := congrArg Prod.fst same
  exact .drafted rfl hc hn

theorem change_perform (a : Agreement) (operation : Operation) :
    Change a (a.perform operation) := by
  cases operation with
  | create payload =>
    cases outcome : a.create payload with
    | error e =>
      simp only [perform, tryCreate_eq, outcome]
      exact .same
    | ok made =>
      simp only [perform, tryCreate_eq, outcome]
      exact change_create outcome
  | propose m =>
    rcases a.propose_cases m with
      same | ⟨x, -, same⟩ | ⟨number, foreign, unanswered, undelivered, next, new⟩
    · simp only [perform, same]
      exact .same
    · simp only [perform, same]
      exact .same
    · simp only [perform, new]
      exact .answered foreign unanswered undelivered next
  | count p =>
    simp only [perform, count_eq]
    exact .tallied p
  | follow d => exact .adopted d
  | remove other =>
    simp only [perform, remove]
    split
    · exact .same
    · rename_i effective
      exact .removed fun self => effective (.inl self)

structure Coherent (a : Agreement) : Prop where
  self_live : a.self ∈ a.live
  sound : a.queue.Sound
  arranged : HoldBack.Arranged a.queue.entries
  headOpen : a.queue.HeadOpen
  latest_le : ∀ e ∈ a.queue.entries, e.stamp.number ≤ a.latest
  /-- An own message that waits was created before. -/
  own_le : ∀ e ∈ a.queue.entries, e.id.sender = a.self → e.id.number ≤ a.created
  /-- Answers are kept for foreign messages that wait; an open entry has the stamp that was
  answered. -/
  answer_waits : ∀ id x, a.answers.get? id = some x →
    x.id = id ∧ x.stamp.proposer = a.self ∧ id.sender ≠ a.self ∧
      ∃ e ∈ a.queue.entries, e.id = id ∧ (e.final = false → e.stamp = x.stamp)
  waits_answered : ∀ e ∈ a.queue.entries, e.id.sender ≠ a.self → ∃ x, a.answers.get? e.id = some x
  ballot_own : ∀ id b, a.ballots.get? id = some b →
    id.sender = a.self ∧ 1 ≤ id.number ∧ id.number ≤ a.created
  cast_self : ∀ id b, a.ballots.get? id = some b → ∃ number, b.get? a.self = some number

namespace Coherent

variable {a : Agreement}

theorem start (self : MemberId) (members : List MemberId) :
    (Agreement.start self members).Coherent where
  self_live := Roll.mem_insert.mpr (.inl rfl)
  sound := HoldBack.sound_empty
  arranged := .nil
  headOpen := HoldBack.headOpen_empty
  latest_le _ he := by cases he
  own_le _ he := by cases he
  answer_waits _ _ found := by cases found
  waits_answered _ he := by cases he
  ballot_own _ _ found := by cases found
  cast_self _ _ found := by cases found

/-- A new entry exceeds all others, so it belongs at the end. -/
theorem enter (h : a.Coherent) {m : Message} {number : UInt32} (absent : m.id ∉ a.queue.waiting)
    (next : after? a.latest = some number) :
    (a.queue.add m ⟨number, a.self⟩).1.entries =
        a.queue.entries ++ [⟨m, ⟨number, a.self⟩, false⟩] ∧
      (a.queue.add m ⟨number, a.self⟩).1.Sound ∧
      HoldBack.Arranged (a.queue.add m ⟨number, a.self⟩).1.entries ∧
      (a.queue.add m ⟨number, a.self⟩).1.HeadOpen ∧
      ∀ e ∈ (a.queue.add m ⟨number, a.self⟩).1.entries, e.stamp.number ≤ number := by
  have below : ∀ e ∈ a.queue.entries, e.stamp.number < number :=
    fun e he => lt_after next (h.latest_le e he)
  have entries : (a.queue.add m ⟨number, a.self⟩).1.entries =
      a.queue.entries ++ [⟨m, ⟨number, a.self⟩, false⟩] := by rw [HoldBack.add_eq _ absent]
  refine ⟨entries, HoldBack.sound_add h.sound _ absent, ?_,
    HoldBack.headOpen_add h.headOpen _ _, ?_⟩
  · rw [entries]
    exact HoldBack.arranged_concat h.arranged below
  · rw [entries]
    intro e he
    rcases List.mem_append.mp he with old | new
    · exact UInt32.le_of_lt (below e old)
    · rw [List.mem_singleton.mp new]
      exact UInt32.le_refl _

/-- A number that was not given yet belongs to no message that waits. -/
theorem absent_drafted (h : a.Coherent) {m : Message} (own : m.id.sender = a.self)
    (created : after? a.created = some m.id.number) : m.id ∉ a.queue.waiting := by
  intro waits
  obtain ⟨e, he, same⟩ := h.sound.mem_waiting.mp waits
  have lt := lt_after created (h.own_le e he (by rw [same, own]))
  rw [same] at lt
  exact UInt32.lt_irrefl _ lt

theorem absent_answered (h : a.Coherent) {m : Message} (foreign : m.id.sender ≠ a.self)
    (unanswered : a.answers.get? m.id = none) : m.id ∉ a.queue.waiting := by
  intro waits
  obtain ⟨e, he, same⟩ := h.sound.mem_waiting.mp waits
  obtain ⟨x, found⟩ := h.waits_answered e he (by rw [same]; exact foreign)
  rw [same, unanswered] at found
  cases found

theorem unanswered (h : a.Coherent) {id : MessageId} (absent : id ∉ a.queue.waiting) :
    a.answers.get? id = none := by
  cases found : a.answers.get? id with
  | none => rfl
  | some x =>
    obtain ⟨-, -, -, e, he, same, -⟩ := h.answer_waits id x found
    exact absurd (h.sound.mem_waiting.mpr ⟨e, he, same⟩) absent

theorem drafted (h : a.Coherent) {m : Message} {number : UInt32} (own : m.id.sender = a.self)
    (created : after? a.created = some m.id.number) (next : after? a.latest = some number) :
    (a.drafted m number).Coherent := by
  have later : ∀ n, n ≤ a.created → n < m.id.number := fun n le => lt_after created le
  have absent := h.absent_drafted own created
  obtain ⟨entries, sound, arranged, headOpen, latest_le⟩ := h.enter absent next
  have entered : (a.drafted m number).queue.entries = _ := entries
  have ballots : ∀ id, (a.drafted m number).ballots.get? id =
      if m.id = id then some (Table.empty.put a.self number) else a.ballots.get? id :=
    fun id => Table.get?_put _ _ _ _
  constructor
  case self_live => exact h.self_live
  case sound => exact sound
  case arranged => exact arranged
  case headOpen => exact headOpen
  case latest_le => exact latest_le
  case own_le =>
    rw [entered]
    intro e he place
    rcases List.mem_append.mp he with old | new
    · exact UInt32.le_of_lt (later _ (h.own_le e old place))
    · rw [List.mem_singleton.mp new]
      exact UInt32.le_refl _
  case answer_waits =>
    rw [entered]
    intro id x found
    obtain ⟨about, proposer, foreign, e, he, rest⟩ := h.answer_waits id x found
    exact ⟨about, proposer, foreign, e, List.mem_append_left _ he, rest⟩
  case waits_answered =>
    rw [entered]
    intro e he foreign
    rcases List.mem_append.mp he with old | new
    · exact h.waits_answered e old foreign
    · rw [List.mem_singleton.mp new] at foreign
      exact absurd own foreign
  case ballot_own =>
    intro id b found
    rw [ballots] at found
    split at found
    · rename_i here
      subst here
      refine ⟨own, ?_, UInt32.le_refl _⟩
      have succ := after?_eq_some created
      rw [UInt32.le_iff_toNat_le, succ]
      exact Nat.le_add_left _ _
    · obtain ⟨place, positive, le⟩ := h.ballot_own id b found
      exact ⟨place, positive, UInt32.le_of_lt (later _ le)⟩
  case cast_self =>
    intro id b found
    rw [ballots] at found
    split at found
    · cases found
      exact ⟨number, (Table.get?_put _ _ _ _).trans (if_pos rfl)⟩
    · exact h.cast_self id b found

theorem answered (h : a.Coherent) {m : Message} {number : UInt32} (foreign : m.id.sender ≠ a.self)
    (unanswered : a.answers.get? m.id = none) (next : after? a.latest = some number) :
    (a.answered m number).Coherent := by
  have absent := h.absent_answered foreign unanswered
  obtain ⟨entries, sound, arranged, headOpen, latest_le⟩ := h.enter absent next
  have entered : (a.answered m number).queue.entries = _ := entries
  have answers : ∀ id, (a.answered m number).answers.get? id =
      if m.id = id then some ⟨m.id, ⟨number, a.self⟩⟩ else a.answers.get? id :=
    fun id => Table.get?_put _ _ _ _
  constructor
  case self_live => exact h.self_live
  case sound => exact sound
  case arranged => exact arranged
  case headOpen => exact headOpen
  case latest_le => exact latest_le
  case own_le =>
    rw [entered]
    intro e he place
    rcases List.mem_append.mp he with old | new
    · exact h.own_le e old place
    · rw [List.mem_singleton.mp new] at place
      exact absurd place foreign
  case answer_waits =>
    rw [entered]
    intro id x found
    rw [answers] at found
    split at found
    · rename_i here
      subst here
      cases found
      exact ⟨rfl, rfl, foreign, _, List.mem_append_right _ List.mem_cons_self, rfl, fun _ => rfl⟩
    · obtain ⟨about, proposer, foreign, e, he, rest⟩ := h.answer_waits id x found
      exact ⟨about, proposer, foreign, e, List.mem_append_left _ he, rest⟩
  case waits_answered =>
    rw [entered]
    intro e he place
    by_cases here : m.id = e.id
    · exact ⟨_, (answers e.id).trans (if_pos here)⟩
    · rw [answers, if_neg here]
      rcases List.mem_append.mp he with old | new
      · exact h.waits_answered e old place
      · rw [List.mem_singleton.mp new] at here
        exact absurd rfl here
  case ballot_own => exact h.ballot_own
  case cast_self => exact h.cast_self

/-- Whatever a decision says, and whether its message waits or not, what is left is in order. -/
theorem adopt (h : a.Coherent) (d : Decision) : (a.adopt d).1.Coherent := by
  obtain ⟨self, live, created, ballots⟩ := a.adopt_frame d
  have queue := adopt_queue h.sound d
  have latest := a.adopt_latest d
  have answers := adopt_answers h.sound d
  have entries : ∀ e, e ∈ (a.adopt d).1.queue.entries ↔ e.id ∉ (a.adopt d).2.map Message.id ∧
      (e ∈ a.queue.entries ∧ e.id ≠ d.id ∨
        ∃ x ∈ a.queue.entries, x.id = d.id ∧ e = x.settled d.stamp) := by
    intro e
    rw [queue, adopt_snd h.sound]
    exact HoldBack.mem_adopt_iff h.sound d
  -- an entry that is left is about the message of an entry that waited before
  have before : ∀ e ∈ (a.adopt d).1.queue.entries, ∃ x ∈ a.queue.entries, x.id = e.id := by
    intro e he
    obtain ⟨-, ⟨old, -⟩ | ⟨x, hx, -, rfl⟩⟩ := (entries e).mp he
    · exact ⟨e, old, rfl⟩
    · exact ⟨x, hx, rfl⟩
  constructor
  case self_live =>
    rw [self, live]
    exact h.self_live
  case sound =>
    rw [queue]
    exact HoldBack.sound_adopt h.sound d
  case arranged =>
    rw [queue]
    exact HoldBack.arranged_adopt h.arranged d
  case headOpen =>
    rw [queue]
    exact HoldBack.headOpen_adopt h.headOpen d
  case latest_le =>
    intro e he
    obtain ⟨latest_le, stamp_le⟩ := le_max a.latest d.stamp.number
    rw [latest]
    obtain ⟨-, ⟨old, -⟩ | ⟨x, -, -, rfl⟩⟩ := (entries e).mp he
    · exact UInt32.le_trans (h.latest_le e old) latest_le
    · exact stamp_le
  case own_le =>
    intro e he place
    obtain ⟨x, hx, same⟩ := before e he
    rw [self] at place
    rw [created, ← same]
    exact h.own_le x hx (by rw [same, place])
  case answer_waits =>
    intro id x found
    rw [answers] at found
    split at found
    · cases found
    · rename_i left
      obtain ⟨about, proposer, foreign, e, he, same, provisional⟩ := h.answer_waits id x found
      rw [self]
      refine ⟨about, proposer, foreign, ?_⟩
      by_cases here : id = d.id
      · refine ⟨e.settled d.stamp, (entries _).mpr ⟨?_, ?_⟩, same, fun final => by cases final⟩
        · rw [HoldBack.Entry.settled_id, same]
          exact left
        · exact .inr ⟨e, he, same.trans here, rfl⟩
      · refine ⟨e, (entries e).mpr ⟨?_, .inl ⟨he, ?_⟩⟩, same, provisional⟩
        · rw [same]
          exact left
        · rw [same]
          exact here
  case waits_answered =>
    intro e he foreign
    obtain ⟨x, hx, same⟩ := before e he
    rw [self] at foreign
    rw [answers, if_neg ((entries e).mp he).1, ← same]
    exact h.waits_answered x hx (by rw [same]; exact foreign)
  case ballot_own =>
    rw [ballots, self, created]
    exact h.ballot_own
  case cast_self =>
    rw [ballots, self]
    exact h.cast_self

/-- Where the ballots of a coherent agreement are changed, only they have to be looked at again. -/
theorem vote (h : a.Coherent) {ballots : Table MessageId Ballot}
    (same : ∀ id b, ballots.get? id = some b → ∃ c, a.ballots.get? id = some c ∧
      ∀ number, c.get? a.self = some number → ∃ k, b.get? a.self = some k) :
    { a with ballots }.Coherent := by
  refine ⟨h.self_live, h.sound, h.arranged, h.headOpen, h.latest_le, h.own_le, h.answer_waits,
    h.waits_answered, fun id b found => ?_, fun id b found => ?_⟩
  · obtain ⟨c, was, -⟩ := same id b found
    exact h.ballot_own id c was
  · obtain ⟨c, was, keeps⟩ := same id b found
    obtain ⟨number, cast⟩ := h.cast_self id c was
    exact keeps number cast

theorem closed (h : a.Coherent) (id : MessageId) : (a.closed id).Coherent := by
  apply h.vote
  intro k b found
  rw [Table.get?_erase] at found
  split at found
  · cases found
  · exact ⟨b, found, fun number cast => ⟨number, cast⟩⟩

theorem tallied (h : a.Coherent) (p : Proposal) : (a.tallied p).Coherent := by
  unfold Agreement.tallied
  split
  · exact h
  · rename_i c open_
    apply h.vote
    intro id b found
    rw [Table.get?_put] at found
    split at found
    · rename_i here
      cases found
      refine ⟨c, here ▸ open_, fun number cast => ?_⟩
      rw [Table.get?_put]
      split
      · exact ⟨_, rfl⟩
      · exact ⟨number, cast⟩
    · exact ⟨b, found, fun number cast => ⟨number, cast⟩⟩

theorem decide? (h : a.Coherent) (id : MessageId) : (a.decide? id).1.Coherent := by
  rcases a.decide?_cases h.self_live id with ⟨same, -⟩ | ⟨b, s, -, -, -, result⟩
  · rw [same]
    exact h
  · rw [result]
    exact (h.closed id).adopt ⟨id, s⟩

theorem decideAll (h : a.Coherent) (ids : List MessageId) : (a.decideAll ids).1.Coherent := by
  induction ids generalizing a with
  | nil => exact h
  | cons id rest ih => exact ih (h.decide? id)

theorem without (h : a.Coherent) {other : MemberId} (foreign : other ≠ a.self) :
    (a.without other).Coherent :=
  ⟨Roll.mem_erase.mpr ⟨h.self_live, Ne.symm foreign⟩, h.sound, h.arranged, h.headOpen, h.latest_le,
    h.own_le, h.answer_waits, h.waits_answered, h.ballot_own, h.cast_self⟩

theorem change (h : a.Coherent) {a' : Agreement} (change : Change a a') : a'.Coherent := by
  cases change with
  | same => exact h
  | drafted own created next => exact (h.drafted own created next).decide? _
  | answered foreign unanswered _ next => exact h.answered foreign unanswered next
  | tallied p => exact (h.tallied p).decide? p.id
  | adopted d => exact h.adopt d
  | removed foreign => exact (h.without foreign).decideAll _

end Coherent

theorem tallied_frame (a : Agreement) (p : Proposal) :
    (a.tallied p).self = a.self ∧ (a.tallied p).live = a.live := by
  unfold tallied
  split <;> exact ⟨rfl, rfl⟩

theorem Change.self {a a' : Agreement} (change : Change a a') : a'.self = a.self := by
  cases change with
  | same => rfl
  | drafted => exact (decide?_frame _ _).1
  | answered => rfl
  | tallied p => exact (decide?_frame _ _).1.trans (a.tallied_frame p).1
  | adopted d => exact (a.adopt_frame d).1
  | removed => exact (decideAll_frame _ _).1

/-- A ballot that a call completes is closed by the same call. -/
theorem stalled_change {a a' : Agreement} (member : a.self ∈ a.live) (h : ∀ id, a.Stalled id)
    (change : Change a a') (id : MessageId) : a'.Stalled id := by
  cases change with
  | same => exact h id
  | @drafted m number =>
    apply stalled_decide? (a := a.drafted m number) member
    by_cases here : id = m.id
    · exact .inl here
    · exact .inr (stalled_drafted here (h id))
  | answered => exact h id
  | tallied p =>
    obtain ⟨self, live⟩ := a.tallied_frame p
    apply stalled_decide? (by rw [self, live]; exact member)
    by_cases here : id = p.id
    · exact .inl here
    · exact .inr (stalled_tallied here (h id))
  | adopted d =>
    obtain ⟨-, live, -, ballots⟩ := a.adopt_frame d
    intro b found
    rw [ballots] at found
    rw [live]
    exact h id b found
  | @removed other foreign =>
    apply stalled_decideAll (a := a.without other) (Roll.mem_erase.mpr ⟨member, Ne.symm foreign⟩)
    by_cases open_ : id ∈ a.ballots.keys
    · exact .inl open_
    · exact .inr fun b found => absurd (Table.mem_keys_iff.mpr ⟨b, found⟩) open_

theorem run_self (a : Agreement) (operations : List Operation) : (a.run operations).self = a.self := by
  induction operations generalizing a with
  | nil => rfl
  | cons operation rest ih => exact (ih _).trans (a.change_perform operation).self

theorem Coherent.run {a : Agreement} (h : a.Coherent) (operations : List Operation) :
    (a.run operations).Coherent := by
  induction operations generalizing a with
  | nil => exact h
  | cons operation rest ih => exact ih (h.change (a.change_perform operation))

theorem stalled_run {a : Agreement} (coherent : a.Coherent) (h : ∀ id, a.Stalled id)
    (operations : List Operation) : ∀ id, (a.run operations).Stalled id := by
  induction operations generalizing a with
  | nil => exact h
  | cons operation rest ih =>
    have change := a.change_perform operation
    exact ih (coherent.change change) (stalled_change coherent.self_live h change)

theorem stalled_start (self : MemberId) (members : List MemberId) (id : MessageId) :
    (start self members).Stalled id := by
  intro b none
  cases none

/-- Whatever calls came before, an agreement is coherent, and an open ballot waits for someone. -/
theorem coherent_run (self : MemberId) (members : List MemberId) (operations : List Operation) :
    ((start self members).run operations).self = self ∧
    ((start self members).run operations).Coherent ∧
    ∀ id, ((start self members).run operations).Stalled id :=
  have coherent := Coherent.start self members
  ⟨run_self _ operations, coherent.run operations,
    stalled_run coherent (stalled_start self members) operations⟩

end Agreement

end Concord
