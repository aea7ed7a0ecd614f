import Concord.Proofs.Retry.Strangers
import Concord.Proofs.Run.Loops
import Concord.Time.Millis

/-!
A sender that is told to write to recipients outside the group, and one that is not. As long as
parcels for strangers do not keep the loop from being called, both send the same at the same times.
-/

namespace Concord

/-- What a sender is told. Its loop goes on at once after an `Order`; here more may come first. -/
inductive Cue (α : Type) where
  | begin
  | perform (deed : Deed α)
  | goOn
  | rest (millis : Nat)

/-- The cue without recipients outside the group. -/
def Cue.within {α : Type} (g : Group) : Cue α → Cue α
  | .begin => .begin
  | .perform d => .perform (d.within g)
  | .goOn => .goOn
  | .rest millis => .rest millis

namespace Sender

variable {α : Type} [Mail α] {g : Group} {base ceiling : Span} {s k : Sender α}
  {x y : Instant × Sender α}

def follow [Timer] : Instant × Sender α → Cue α → Instant × Sender α
  | (now, s), .begin => (now, s.begin)
  | (now, s), .perform d => (now, { s with outbox := s.outbox.perform d })
  | (now, s), .goOn => (now, s.settle now)
  | (now, s), .rest millis =>
    (Clock.restEnd now millis, Clock.elapse due? settle now millis (s.settle now))

/-- The loop waits without a call, and parcels are held for strangers and for no one else. -/
def Stuck (g : Group) (s : Sender α) : Prop :=
  s.outbox.parcels ≠ [] ∧ s.outbox.round g.addressOf = [] ∧ s.outbox.calls = 0 ∧
    ∃ l ∈ s.loops.state?, ∃ p ∈ l, p.phase = .waiting

instance (s : Sender α) : Decidable (s.Stuck g) :=
  inferInstanceAs (Decidable (_ ∧ _ ∧ _ ∧ _))

/-- Strangers stand in the way of a cue: of the call for something that is put for a member, or of
the acknowledgement by one. -/
def Obstructs (g : Group) (s : Sender α) : Cue α → Prop
  | .perform (.put _ recipients) => (∃ m ∈ recipients, m ∈ g.ids) ∧ s.Stuck g
  | .perform (.acknowledge id member) => s.outbox.Hides g id member
  | .perform (.forget _) | .begin | .goOn | .rest _ => False

instance (s : Sender α) (cue : Cue α) : Decidable (s.Obstructs g cue) :=
  match cue with
  | .perform (.put _ recipients) =>
    inferInstanceAs (Decidable ((∃ m ∈ recipients, m ∈ g.ids) ∧ s.Stuck g))
  | .perform (.acknowledge id member) => inferInstanceAs (Decidable (s.outbox.Hides g id member))
  | .perform (.forget _) | .begin | .goOn | .rest _ => .isFalse id

/-- A loop begins where none runs yet. -/
def Single (s : Sender α) : Cue α → Prop
  | .begin => s.loops.state? = none
  | .perform _ | .goOn | .rest _ => True

instance (s : Sender α) (cue : Cue α) : Decidable (s.Single cue) :=
  match cue with
  | .begin => inferInstanceAs (Decidable (s.loops.state? = none))
  | .perform _ | .goOn | .rest _ => .isTrue trivial

/-- There is one loop, and strangers never stand in the way. -/
def Unhindered [Timer] (g : Group) : Instant × Sender α → List (Cue α) → Prop
  | _, [] => True
  | x, cue :: later =>
    x.2.Single cue ∧ ¬ x.2.Obstructs g cue ∧ Unhindered g (follow x cue) later

instance decidableUnhindered [Timer] (x : Instant × Sender α) (cues : List (Cue α)) :
    Decidable (Unhindered g x cues) :=
  match cues with
  | [] => .isTrue trivial
  | cue :: later =>
    have := decidableUnhindered (follow x cue) later
    inferInstanceAs (Decidable (_ ∧ _ ∧ _))

/-- The loops are equally far, and one that waits is called if there is something to send. -/
inductive Abreast (g : Group) (s k : Sender α) : Prop where
  | still (idle : s.loops.state? = none) (same : k.loops = s.loops)
  | running {p q : Pump} (here : s.loops = .running [p]) (there : k.loops = .running [q])
      (settled : Pump.Settled p.face) (same : q.face = p.face)
      (called : p.phase = .waiting → s.outbox.round g.addressOf ≠ [] →
        0 < s.outbox.calls ∧ 0 < k.outbox.calls)

/-- Two senders of which the second has only what is for members. -/
structure Accord (g : Group) (s k : Sender α) : Prop where
  group : s.group = g ∧ k.group = g
  pauses : k.basePause = s.basePause ∧ k.longestPause = s.longestPause
  parcels : k.outbox.parcels = Parcel.allWithin g s.outbox.parcels
  sent : k.sent = s.sent
  loops : Abreast g s k

theorem accord_start (g : Group) (base ceiling : Span) :
    Accord g (start g base ceiling : Sender α) (start g base ceiling) :=
  ⟨⟨rfl, rfl⟩, ⟨rfl, rfl⟩, rfl, rfl, .still rfl rfl⟩

namespace Accord

theorem due? (h : Accord g s k) : k.due? = s.due? := by
  unfold Sender.due?
  cases h.loops with
  | still idle same => rw [same]
  | @running p q here there settled same =>
    have together : q.due? = p.due? := by
      have phase : q.phase = p.phase := congrArg Prod.fst same
      rw [Pump.due?, Pump.due?, phase]
    rw [here, there]
    simp only [Stage.state?, Option.getD_some, List.foldl_cons, List.foldl_nil, together]

/-- Both come to the same at an instant. -/
theorem settle [Timer] (h : Accord g s k) (now : Instant) :
    Accord g (s.settle now) (k.settle now) := by
  obtain ⟨group, pauses, parcels, sent, loops⟩ := h
  cases loops with
  | still idle same =>
    rw [settle_idle idle, settle_idle (same ▸ idle)]
    exact ⟨group, pauses, parcels, sent, .still idle same⟩
  | @running p q here there settled same called =>
    obtain ⟨p', face, settles⟩ := settle_running here settled now
    obtain ⟨q', face', settles'⟩ := settle_running there (same ▸ settled) now
    have left : s.comes now p =
        Pump.comesTo now (s.outbox.round g.addressOf) (Pump.summoned 1 p.face) := by
      rw [comes, group.1]
      exact Pump.comesTo_summoned settled fun waits some => (called waits some).1
    have right : k.comes now q = s.comes now p := by
      rw [left, comes, group.2, same, Outbox.round_within parcels]
      exact Pump.comesTo_summoned settled fun waits some => (called waits some).2
    rw [settles, settles']
    refine ⟨group, pauses, parcels, by rw [sent, right], .running rfl rfl ?_ ?_ ?_⟩
    · rw [face]
      exact (settled.summoned _).comesTo
    · rw [face, face', right]
    · intro waits some
      have rests : (s.comes now p).1.1 = .waiting := face ▸ waits
      rw [left] at rests
      exact absurd (Pump.round_eq_nil_of_waits settled rests) some

theorem leap [Timer] (h : Accord g s k) (limit : Instant) (leaps : Nat) :
    Accord g (Clock.leap Sender.due? Sender.settle limit leaps s)
      (Clock.leap Sender.due? Sender.settle limit leaps k) := by
  induction leaps generalizing s k with
  | zero => exact h
  | succ leaps ih =>
    unfold Clock.leap
    rw [h.due?]
    split
    · exact h
    · split
      · exact ih (h.settle _)
      · exact h

theorem begin (h : Accord g s k) (idle : s.loops.state? = none) : Accord g s.begin k.begin := by
  obtain ⟨group, pauses, parcels, sent, loops⟩ := h
  have same : k.loops = s.loops := by
    cases loops with
    | still _ same => exact same
    | running here =>
      rw [here] at idle
      cases idle
  cases started : Pump.start s.basePause s.longestPause with
  | error e =>
    have started' : Pump.start k.basePause k.longestPause = .error e := by
      rw [pauses.1, pauses.2, started]
    rw [begin_of_error started, begin_of_error started']
    exact ⟨group, pauses, parcels, sent, .still rfl rfl⟩
  | ok pump =>
    have started' : Pump.start k.basePause k.longestPause = .ok pump := by
      rw [pauses.1, pauses.2, started]
    obtain ⟨ready, settled⟩ := Pump.settled_start started
    rw [begin_of_idle started idle, begin_of_idle started' (same ▸ idle)]
    refine ⟨group, pauses, parcels, sent, .running rfl rfl settled rfl fun waits => ?_⟩
    cases ready.symm.trans waits

theorem perform (h : Accord g s k) {d : Deed α} (free : ¬ s.Obstructs g (.perform d)) :
    Accord g { s with outbox := s.outbox.perform d }
      { k with outbox := k.outbox.perform (d.within g) } := by
  have parcels : (k.outbox.perform (d.within g)).parcels =
      Parcel.allWithin g (s.outbox.perform d).parcels := by
    refine Outbox.perform_within h.parcels ?_
    rintro id member rfl
    exact free
  refine ⟨h.group, h.pauses, parcels, h.sent, ?_⟩
  cases h.loops with
  | still idle same => exact .still idle same
  | @running p q here there settled same called =>
    refine .running here there settled same fun waits some => ?_
    refine Outbox.calls_within h.parcels parcels (called waits)
      (fun reaches held nothing => ?_) some
    by_contra uncalled
    have stuck : s.Stuck g := ⟨held, nothing, Nat.eq_zero_of_not_pos uncalled, [p],
      by rw [here]; rfl, p, List.mem_singleton_self p, waits⟩
    cases d with
    | put item recipients => exact free ⟨reaches, stuck⟩
    | acknowledge | forget => exact reaches

theorem follow [Timer] (h : Accord g x.2 y.2) (same : y.1 = x.1) {cue : Cue α}
    (once : x.2.Single cue) (free : ¬ x.2.Obstructs g cue) :
    Accord g (Sender.follow x cue).2 (Sender.follow y (cue.within g)).2 ∧
      (Sender.follow y (cue.within g)).1 = (Sender.follow x cue).1 := by
  obtain ⟨now, s⟩ := x
  obtain ⟨now, k⟩ := y
  cases same
  cases cue with
  | begin => exact ⟨h.begin once, rfl⟩
  | perform d => exact ⟨h.perform free, rfl⟩
  | goOn => exact ⟨h.settle now, rfl⟩
  | rest millis => exact ⟨(h.settle now).leap _ _, rfl⟩

theorem run [Timer] (h : Accord g x.2 y.2) (same : y.1 = x.1) {cues : List (Cue α)}
    (free : Unhindered g x cues) :
    Accord g (cues.foldl Sender.follow x).2 ((cues.map (Cue.within g)).foldl Sender.follow y).2 ∧
      ((cues.map (Cue.within g)).foldl Sender.follow y).1 = (cues.foldl Sender.follow x).1 := by
  induction cues generalizing x y with
  | nil => exact ⟨h, same⟩
  | cons cue later ih =>
    obtain ⟨once, first, rest⟩ := free
    obtain ⟨accord, still⟩ := h.follow same once first
    exact ih accord still rest

/-- Something that is put for a member while strangers stand in the way is not sent, which without
them would be sent at once. -/
theorem unsent [Timer] (h : Accord g x.2 y.2) (same : y.1 = x.1) (stuck : x.2.Stuck g) (item : α)
    {recipients : List MemberId} (known : ∃ m ∈ recipients, m ∈ g.ids) :
    let next := [Cue.perform (.put item recipients), .goOn]
    ∃ round ≠ [], (next.foldl Sender.follow x).2.sent = x.2.sent ∧
      ((next.map (Cue.within g)).foldl Sender.follow y).2.sent =
        x.2.sent ++ Sent.all x.1 round := by
  intro next
  obtain ⟨now, s⟩ := x
  obtain ⟨now, k⟩ := y
  cases same
  obtain ⟨held, nothing, uncalled, l, running, p, hp, waits⟩ := stuck
  dsimp only at h held nothing uncalled running ⊢
  have parcels := Outbox.put_within h.parcels item recipients
  have empty := (Outbox.round_eq_nil_iff h.parcels).mp nothing
  cases h.loops with
  | still idle => cases idle.symm.trans running
  | @running p' q here there settled same called =>
    rw [here] at running
    cases running
    cases List.mem_singleton.mp hp
    have someone : ∃ m, m ∈ recipients.filter fun m => m ∈ g.ids :=
      known.imp fun m h => List.mem_filter.mpr ⟨h.1, decide_eq_true h.2⟩
    have some : (s.outbox.put item recipients).round g.addressOf ≠ [] := by
      rw [Ne, Outbox.round_eq_nil_iff parcels]
      obtain ⟨-, nobody⟩ | ⟨new, -⟩ :=
        k.outbox.put_eq_or item (recipients.filter fun m => m ∈ g.ids)
      · exact absurd someone fun ⟨m, hm⟩ => nobody m hm
      · simp [new]
    obtain ⟨_, -, settles⟩ := settle_running
      (s := { s with outbox := s.outbox.put item recipients }) here settled now
    obtain ⟨_, -, settles'⟩ := settle_running (s := { k with
      outbox := k.outbox.put item (recipients.filter fun m => m ∈ g.ids) }) there
      (same ▸ settled) now
    refine ⟨_, some, ?_, ?_⟩
    · have still : (s.outbox.put item recipients).calls = 0 := by
        rw [Outbox.put, Outbox.isEmpty, List.isEmpty_eq_false_iff.mpr held]
        split <;> exact uncalled
      refine (congrArg Sender.sent settles).trans ?_
      rw [comes, still, Pump.mail_of_uncalled waits]
      exact List.append_nil _
    · have called : 0 < (k.outbox.put item (recipients.filter fun m => m ∈ g.ids)).calls :=
        (Outbox.calls_of_feeds (Deed.feeds_put item someone)).2 empty
      refine (congrArg Sender.sent settles').trans ?_
      rw [comes, h.group.2, Outbox.round_within parcels, same, ← h.sent]
      exact congrArg (k.sent ++ Sent.all now ·) (Pump.mail_of_called waits some called)

end Accord

/-- Recipients outside the group change nothing in what a sender sends and when, unless they stand
in the way. Where they do, something that is put for a member is not sent. -/
theorem sent_within [Timer] {cues : List (Cue α)}
    (free : Unhindered g (0, .start g base ceiling) cues) :
    let both := cues.foldl follow (0, .start g base ceiling)
    let alone := (cues.map (Cue.within g)).foldl follow (0, .start g base ceiling)
    alone.1 = both.1 ∧ alone.2.sent = both.2.sent ∧
      ∀ item recipients, (∃ m ∈ recipients, m ∈ g.ids) → both.2.Stuck g →
        let next := [Cue.perform (.put item recipients), .goOn]
        ∃ round ≠ [], (next.foldl follow both).2.sent = both.2.sent ∧
          ((next.map (Cue.within g)).foldl follow alone).2.sent =
            both.2.sent ++ Sent.all both.1 round := by
  intro both alone
  obtain ⟨accord, same⟩ := (accord_start g base ceiling).run rfl free
  exact ⟨same, accord.sent, fun item recipients known stuck => accord.unsent same stuck item known⟩

/-- A loop that has found parcels for strangers alone is not called for what is put next. -/
theorem unsent_behind_strangers :
    let g : Group := ⟨⟨1⟩, Group.onLoopback 2⟩
    let cues : List (Cue Message) := [.begin, .goOn, .perform (.put ⟨⟨⟨1⟩, 1⟩, 7⟩ [⟨9⟩]), .goOn,
      .perform (.put ⟨⟨⟨1⟩, 2⟩, 8⟩ [⟨2⟩]), .goOn, .rest 1000]
    let first : Instant × Sender Message := (0, .start g (.ofMillis 200) (.ofSeconds 4))
    (cues.foldl follow first).2.sent = [] ∧
      ((cues.map (Cue.within g)).foldl follow first).2.sent.map Sent.time =
        [0, 200000000, 600000000] := by
  decide +kernel

/-- Parcels for a stranger are put while the loop is called or pauses, before it goes on. -/
theorem sent_within_of_pause :
    let g : Group := ⟨⟨1⟩, Group.onLoopback 2⟩
    let cues : List (Cue Message) := [.begin, .goOn, .perform (.put ⟨⟨⟨1⟩, 1⟩, 7⟩ [⟨9⟩]),
      .perform (.put ⟨⟨⟨1⟩, 2⟩, 8⟩ [⟨2⟩, ⟨9⟩]), .rest 100, .perform (.acknowledge ⟨⟨1⟩, 2⟩ ⟨2⟩),
      .perform (.put ⟨⟨⟨1⟩, 3⟩, 9⟩ [⟨2⟩]), .rest 1000]
    let first : Instant × Sender Message := (0, .start g (.ofMillis 200) (.ofSeconds 4))
    Unhindered g first cues ∧
      ((cues.map (Cue.within g)).foldl follow first).2.sent = (cues.foldl follow first).2.sent ∧
      (cues.foldl follow first).2.sent.map Sent.time = [0, 200000000, 600000000] := by
  intro g cues first
  have free : Unhindered g first cues := by decide +kernel
  exact ⟨free, (sent_within free).2.1, by decide +kernel⟩

end Sender

end Concord
