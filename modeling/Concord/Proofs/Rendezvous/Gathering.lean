import Concord.Proofs.Rendezvous.Barrier
import Concord.Proofs.World.Roster
import Concord.Time.Millis
import Mathlib.Logic.Function.Basic

/-!
Members that gather at the barrier, in all their runs. They start at any time, and the network hands
over what they have sent in any order, any number of times or never. Whoever answered a probe has
heard it, so a member that is still missed by another one has not passed and goes on probing it.
-/

namespace Concord

namespace Barrier

instance (gate : Gate) : Decidable (gate = .passed) :=
  match gate with
  | .passed => isTrue rfl
  | .waiting _ | .failed | .broken => isFalse nofun

/-- The gate stands open exactly if the probe is complete, and it works unless it has no period. -/
def Consistent (b : Barrier) (interval : Span) : Prop :=
  match b.gate with
  | .waiting _ => b.probe.complete b.group.others = false
  | .passed => b.probe.complete b.group.others = true
  | .failed => False
  | .broken => interval.nanos = 0

/-- A gate is consistent after it was reconsidered if it had not been opened too early. -/
theorem consistent_reconsider {b : Barrier} {interval : Span}
    (responding : b.responder = .running ())
    (passed : b.gate = .passed → b.probe.complete b.group.others = true)
    (failed : b.gate ≠ .failed) (broken : b.gate = .broken → interval.nanos = 0) :
    b.reconsider.Consistent interval := by
  cases gate : b.gate with
  | waiting ticker =>
    cases complete : b.probe.complete b.group.others with
    | true => simp [reconsider, Consistent, gate, complete]
    | false => simp [reconsider, Consistent, gate, complete, responding]
  | passed => simpa [reconsider, Consistent, gate] using passed gate
  | failed => exact absurd gate failed
  | broken => simpa [reconsider, Consistent, gate] using broken gate

/-- The next round of probes goes to this address, among others. -/
def Probes (b : Barrier) (target : Address) : Prop :=
  ∃ ticker, b.gate = .waiting ticker ∧ ∀ now, ticker.next ≤ now → ∃ round,
    (b.settle now).sent = b.sent ++ round ∧
      ⟨now, target, (Signal.alive b.group.self).encode⟩ ∈ round

theorem probes_of_silent {b : Barrier} {ticker : Ticker} (waiting : b.gate = .waiting ticker)
    {q : MemberId} {target : Address} (other : q ∈ b.group.others)
    (silent : q ∉ b.probe.answeredBy) (there : b.group.addressOf q = some target) :
    b.Probes target := by
  refine ⟨ticker, waiting, fun now due => ?_⟩
  have settled : (b.settle now).sent = b.sent ++
      Sent.all now (List.replicate (ticker.due now) (b.probe.round b.group)).flatten := by
    simp only [settle, waiting]
  have listed : (target, (Signal.alive b.group.self).encode) ∈ b.probe.round b.group :=
    List.mem_map_of_mem (List.mem_filterMap.mpr
      ⟨q, List.mem_filter.mpr ⟨other, decide_eq_true silent⟩, there⟩)
  have often : ticker.due now ≠ 0 := by
    rw [Ticker.due, if_neg (Nat.not_lt.mpr due)]
    exact Nat.succ_ne_zero _
  exact ⟨_, settled, List.mem_map.mpr ⟨_, List.mem_flatten.mpr
    ⟨_, List.mem_replicate.mpr ⟨often, rfl⟩, listed⟩, rfl⟩⟩

end Barrier

/-- The barrier of every member that has started. -/
abbrev Gathering := MemberId → Option Barrier

namespace Gathering

/-- A member at the source address has sent the datagram, at any time so far. -/
def Posted (roster : Roster) (w : Gathering) (source target : Address) (bytes : Bytes) : Prop :=
  ∃ q c, w q = some c ∧ roster.addressOf q = some source ∧
    ∃ s ∈ c.sent, s.target = target ∧ s.bytes = bytes

/-- Time is up to the environment: a member starts, settles and receives at any instant. -/
inductive Step [Timer] (roster : Roster) (interval : MemberId → Span) (w : Gathering) :
    Gathering → Prop
  | start {p : MemberId} (member : p ∈ roster.ids) (absent : w p = none) (now : Instant) :
      Step roster interval w
        (Function.update w p (some (.start (roster.group p) (interval p) now)))
  | settle {p : MemberId} {b : Barrier} (here : w p = some b) (now : Instant) :
      Step roster interval w (Function.update w p (some (b.settle now)))
  | handOver {p : MemberId} {b : Barrier} {source target : Address} {bytes : Bytes}
      (here : w p = some b) (place : roster.addressOf p = some target)
      (posted : w.Posted roster source target bytes) (now : Instant) :
      Step roster interval w
        (Function.update w p (some (b.arrive now (.datagram source bytes))))

inductive Reachable [Timer] (roster : Roster) (interval : MemberId → Span) : Gathering → Prop
  | start : Reachable roster interval fun _ => none
  | next {w v : Gathering} : Reachable roster interval w → Step roster interval w v →
      Reachable roster interval v

/-- Where a member at the barrier stands, as far as the others go. -/
structure Sound (roster : Roster) (interval : MemberId → Span) (w : Gathering) (p : MemberId)
    (b : Barrier) : Prop where
  member : p ∈ roster.ids
  group : b.group = roster.group p
  responding : b.responder = .running ()
  consistent : b.Consistent (interval p)
  answered : ∀ q ∈ b.probe.answeredBy, ∃ c, w q = some c ∧ p ∈ c.probe.heardFrom
  sent : ∀ s ∈ b.sent, s.bytes = (Signal.alive p).encode ∨
    s.bytes = (Signal.aliveAnswer p).encode ∧
      ∃ q ∈ b.probe.heardFrom, roster.addressOf q = some s.target

namespace Sound

variable {roster : Roster} {interval : MemberId → Span} {w : Gathering} {p : MemberId}
  {b : Barrier}

theorem start [Timer] (member : p ∈ roster.ids) (now : Instant) :
    Sound roster interval w p (.start (roster.group p) (interval p) now) := by
  obtain ⟨gate, started, fits⟩ := Barrier.start_eq (roster.group p) (interval p) now
  obtain ⟨group, probe, responder, sent⟩ :=
    Barrier.reconsider_frame ⟨roster.group p, gate, .none, .running (), []⟩
  rw [started]
  refine ⟨member, group, responder, Barrier.consistent_reconsider rfl ?_ ?_ ?_, ?_, ?_⟩
  · rintro rfl
    rcases fits with ⟨⟨⟩, -⟩ | ⟨ticker, -, ⟨⟩⟩
  · rintro rfl
    rcases fits with ⟨⟨⟩, -⟩ | ⟨ticker, -, ⟨⟩⟩
  · rintro rfl
    rcases fits with ⟨-, zero⟩ | ⟨ticker, -, ⟨⟩⟩
    exact zero
  · intro q answered
    rw [probe] at answered
    exact absurd answered (Roll.not_mem_empty q)
  · intro s posted
    rw [sent] at posted
    cases posted

theorem settle (h : Sound roster interval w p b) (now : Instant) :
    Sound roster interval w p (b.settle now) := by
  unfold Barrier.settle
  split
  · rename_i ticker waiting
    obtain ⟨member, group, responding, consistent, answered, sent⟩ := h
    rw [Barrier.Consistent, waiting] at consistent
    refine ⟨member, group, responding, consistent, answered, fun s posted => ?_⟩
    rcases List.mem_append.mp posted with old | new
    · exact sent s old
    · obtain ⟨d, listed, rfl⟩ := List.mem_map.mp new
      obtain ⟨round, often, listed⟩ := List.mem_flatten.mp listed
      rw [(List.mem_replicate.mp often).2] at listed
      obtain ⟨a, -, rfl⟩ := List.mem_map.mp listed
      exact .inl (by rw [group]; rfl)
  · exact h

/-- A barrier that has heard more is sound if its new answers and datagrams are accounted for. -/
theorem hears (h : Sound roster interval w p b) {probe : Probe} {mail : List Sent}
    (heard : ∀ q ∈ b.probe.heardFrom, q ∈ probe.heardFrom)
    (kept : ∀ q ∈ b.probe.answeredBy, q ∈ probe.answeredBy)
    (answered : ∀ q ∈ probe.answeredBy, q ∈ b.probe.answeredBy ∨
      ∃ c, w q = some c ∧ p ∈ c.probe.heardFrom)
    (posted : ∀ s ∈ mail, s.bytes = (Signal.aliveAnswer p).encode ∧
      ∃ q ∈ probe.heardFrom, roster.addressOf q = some s.target) :
    Sound roster interval w p (Barrier.reconsider { b with probe, sent := b.sent ++ mail }) := by
  obtain ⟨group, probe', responder, sent⟩ :=
    Barrier.reconsider_frame { b with probe, sent := b.sent ++ mail }
  have consistent := h.consistent
  unfold Barrier.Consistent at consistent
  refine ⟨h.member, group.trans h.group, responder.trans h.responding,
    Barrier.consistent_reconsider h.responding ?_ ?_ ?_, ?_, ?_⟩
  · intro passed
    rw [show b.gate = .passed from passed, Probe.complete_iff] at consistent
    refine Probe.complete_iff.mpr fun m other => ?_
    obtain ⟨answered, heardFrom⟩ := consistent m other
    exact ⟨kept m answered, heard m heardFrom⟩
  · intro failed
    rw [show b.gate = .failed from failed] at consistent
    exact consistent
  · intro broken
    rw [show b.gate = .broken from broken] at consistent
    exact consistent
  · intro q listed
    rw [probe'] at listed
    exact (answered q listed).elim (h.answered q) id
  · intro s listed
    rw [sent] at listed
    rw [probe']
    rcases List.mem_append.mp listed with old | new
    · refine (h.sent s old).imp_right fun ⟨same, q, heardFrom, there⟩ => ?_
      exact ⟨same, q, heard q heardFrom, there⟩
    · exact .inr (posted s new)

/-- Whatever arrives was sent by a sound barrier, so a probe tells who sent it, and an answer was
given to a probe. -/
theorem arrive (h : Sound roster interval w p b)
    (all : ∀ q c, w q = some c → Sound roster interval w q c) {source target : Address}
    {bytes : Bytes} (place : roster.addressOf p = some target)
    (posted : w.Posted roster source target bytes) (now : Instant) :
    Sound roster interval w p (b.arrive now (.datagram source bytes)) ∧
      ∀ q ∈ b.probe.heardFrom, q ∈ (b.arrive now (.datagram source bytes)).probe.heardFrom := by
  obtain ⟨q, c, sender, there, s, listed, rfl, rfl⟩ := posted
  have ignored : Sound roster interval w p
      (Barrier.reconsider { b with probe := b.probe, sent := b.sent ++ Sent.all now [] }) :=
    h.hears (fun _ => id) (fun _ => id) (fun _ => .inl) fun s hs => by cases hs
  rcases (all q c sender).sent s listed with bytes | ⟨bytes, r, heard, here⟩
  · have holds : Signal.decode s.bytes = .ok (.alive q) := bytes ▸ Signal.decode_encode _
    rw [Barrier.arrive_eq h.responding now source holds, (Barrier.reconsider_frame _).2.1]
    rcases b.probe.hear_cases b.group source (.alive q) with same | ⟨m, ⟨⟩, same⟩ | ⟨m, ⟨⟩, -⟩
    · rw [same]
      exact ⟨ignored, fun _ => id⟩
    · rw [same]
      refine ⟨h.hears (fun _ old => Roll.mem_insert.mpr (.inr old)) (fun _ => id) (fun _ => .inl) ?_,
        fun _ old => Roll.mem_insert.mpr (.inr old)⟩
      intro s answer
      obtain rfl := List.mem_singleton.mp answer
      exact ⟨by rw [h.group]; rfl, q, Roll.mem_insert.mpr (.inl rfl), there⟩
  · have holds : Signal.decode s.bytes = .ok (.aliveAnswer q) := bytes ▸ Signal.decode_encode _
    obtain rfl := Roster.addressOf_injective here place
    rw [Barrier.arrive_eq h.responding now source holds, (Barrier.reconsider_frame _).2.1]
    rcases b.probe.hear_cases b.group source (.aliveAnswer q) with
      same | ⟨m, ⟨⟩, -⟩ | ⟨m, ⟨⟩, same⟩
    · rw [same]
      exact ⟨ignored, fun _ => id⟩
    · rw [same]
      refine ⟨h.hears (fun _ => id) (fun _ old => Roll.mem_insert.mpr (.inr old)) ?_
        fun s hs => (by cases hs), fun _ => id⟩
      intro m answered
      rcases Roll.mem_insert.mp answered with rfl | old
      · exact .inr ⟨c, sender, heard⟩
      · exact .inl old

/-- What others have heard meanwhile does no harm. -/
theorem mono {v : Gathering} (h : Sound roster interval w p b)
    (grows : ∀ q c, w q = some c →
      ∃ d, v q = some d ∧ ∀ m ∈ c.probe.heardFrom, m ∈ d.probe.heardFrom) :
    Sound roster interval v p b := by
  refine ⟨h.member, h.group, h.responding, h.consistent, fun q answered => ?_, h.sent⟩
  obtain ⟨c, there, heard⟩ := h.answered q answered
  obtain ⟨d, there', more⟩ := grows q c there
  exact ⟨d, there', more p heard⟩

end Sound

theorem sound_update {roster : Roster} {interval : MemberId → Span} {w : Gathering}
    (all : ∀ q c, w q = some c → Sound roster interval w q c) {p : MemberId} {b : Barrier}
    (sound : Sound roster interval w p b)
    (grows : ∀ c, w p = some c → ∀ m ∈ c.probe.heardFrom, m ∈ b.probe.heardFrom) (q : MemberId)
    (c : Barrier) (here : Function.update w p (some b) q = some c) :
    Sound roster interval (Function.update w p (some b)) q c := by
  have more : ∀ r d, w r = some d → ∃ e, Function.update w p (some b) r = some e ∧
      ∀ m ∈ d.probe.heardFrom, m ∈ e.probe.heardFrom := by
    intro r d there
    by_cases same : r = p
    · subst same
      exact ⟨b, Function.update_self .., grows d there⟩
    · exact ⟨d, (Function.update_of_ne same ..).trans there, fun _ => id⟩
  by_cases same : q = p
  · subst same
    rw [Function.update_self] at here
    cases here
    exact sound.mono more
  · rw [Function.update_of_ne same] at here
    exact (all q c here).mono more

theorem Reachable.sound [Timer] {roster : Roster} {interval : MemberId → Span} {w : Gathering}
    (h : Reachable roster interval w) :
    ∀ p b, w p = some b → Sound roster interval w p b := by
  induction h with
  | start => exact fun _ _ here => by cases here
  | next _ step ih =>
    cases step with
    | start member absent now =>
      refine sound_update ih (.start member now) fun c here => ?_
      rw [absent] at here
      cases here
    | @settle p b here now =>
      refine sound_update ih ((ih p b here).settle now) fun c there => ?_
      obtain rfl : b = c := Option.some.inj (here.symm.trans there)
      unfold Barrier.settle
      split <;> exact fun _ => id
    | @handOver p b source target bytes here place posted now =>
      obtain ⟨sound, grows⟩ := (ih p b here).arrive ih place posted now
      refine sound_update ih sound fun c there => ?_
      obtain rfl : b = c := Option.some.inj (here.symm.trans there)
      exact grows

/-- What happens next is up to a member or the network. -/
inductive Action where
  | start (p : MemberId) (now : Instant)
  | settle (p : MemberId) (now : Instant)
  /-- The network hands over the datagram in a place among those that a member has sent. -/
  | handOver (sender : MemberId) (place : Nat) (now : Instant)

/-- An action that is not possible has no effect. -/
def act [Timer] (roster : Roster) (interval : MemberId → Span) (w : Gathering) : Action → Gathering
  | .start p now =>
    if p ∈ roster.ids ∧ (w p).isNone then
      Function.update w p (some (.start (roster.group p) (interval p) now))
    else w
  | .settle p now =>
    match w p with
    | none => w
    | some b => Function.update w p (some (b.settle now))
  | .handOver q place now =>
    match roster.addressOf q, (w q).bind fun c => c.sent[place]? with
    | some source, some s =>
      match roster.memberAt s.target with
      | none => w
      | some p =>
        match w p with
        | none => w
        | some b => Function.update w p (some (b.arrive now (.datagram source s.bytes)))
    | _, _ => w

def run [Timer] (roster : Roster) (interval : MemberId → Span) (w : Gathering)
    (actions : List Action) : Gathering := actions.foldl (act roster interval) w

theorem act_eq_or_step [Timer] (roster : Roster) (interval : MemberId → Span) (w : Gathering)
    (a : Action) :
    w.act roster interval a = w ∨ Step roster interval w (w.act roster interval a) := by
  cases a with
  | start p now =>
    by_cases possible : p ∈ roster.ids ∧ (w p).isNone
    · rw [act, if_pos possible]
      exact .inr (.start possible.1 (Option.isNone_iff_eq_none.mp possible.2) now)
    · exact .inl (if_neg possible)
  | settle p now =>
    dsimp only [act]
    split
    · exact .inl rfl
    · rename_i b here
      exact .inr (.settle here now)
  | handOver q place now =>
    dsimp only [act]
    split
    · rename_i source s there found
      obtain ⟨c, sender, listed⟩ := Option.bind_eq_some_iff.mp found
      split
      · exact .inl rfl
      · rename_i p target
        split
        · exact .inl rfl
        · rename_i b here
          exact .inr (.handOver here (Roster.memberAt_eq_some.mp target)
            ⟨q, c, sender, there, s, List.mem_of_getElem? listed, rfl, rfl⟩ now)
    · exact .inl rfl

theorem Reachable.run [Timer] {roster : Roster} {interval : MemberId → Span} {w : Gathering}
    (h : Reachable roster interval w) (actions : List Action) :
    Reachable roster interval (w.run roster interval actions) := by
  induction actions generalizing w with
  | nil => exact h
  | cons a rest ih =>
    apply ih
    rcases w.act_eq_or_step roster interval a with same | step
    · exact same.symm ▸ h
    · exact .next h step

namespace Sound

variable {roster : Roster} {interval : MemberId → Span} {w : Gathering} {p q : MemberId}
  {b : Barrier}

theorem mem_others (h : Sound roster interval w p b) (member : q ∈ roster.ids) (other : q ≠ p) :
    q ∈ b.group.others := by
  rw [h.group]
  exact List.mem_filter.mpr ⟨member, decide_eq_true other⟩

theorem of_passed (h : Sound roster interval w p b) (passed : b.gate = .passed)
    (member : q ∈ roster.ids) (other : q ≠ p) :
    q ∈ b.probe.answeredBy ∧ q ∈ b.probe.heardFrom := by
  have consistent := h.consistent
  rw [Barrier.Consistent, passed] at consistent
  exact Probe.complete_iff.mp consistent q (h.mem_others member other)

theorem probes (h : Sound roster interval w p b) (behind : b.gate ≠ .passed)
    (period : 0 < (interval p).nanos) (member : q ∈ roster.ids) (other : q ≠ p)
    (silent : q ∉ b.probe.answeredBy) :
    ∃ target, roster.addressOf q = some target ∧ b.Probes target := by
  obtain ⟨target, there⟩ := Roster.exists_addressOf member
  refine ⟨target, there, ?_⟩
  have consistent := h.consistent
  unfold Barrier.Consistent at consistent
  cases gate : b.gate with
  | waiting ticker =>
    apply Barrier.probes_of_silent gate (h.mem_others member other) silent
    rw [h.group]
    exact there
  | passed => exact absurd gate behind
  | failed =>
    rw [gate] at consistent
    exact consistent.elim
  | broken =>
    rw [gate] at consistent
    exact absurd consistent (Nat.ne_of_gt period)

end Sound

/-- Whoever has passed the barrier is known to be up by everyone, and knows so. Whoever has not goes
on probing those that have not answered, and those it has not heard have not passed either and go on
probing it. -/
theorem nobody_left_waiting [Timer] {roster : Roster} {interval : MemberId → Span} {w : Gathering}
    (reachable : Reachable roster interval w) {p : MemberId} {b : Barrier} (here : w p = some b) :
    (b.gate = .passed → ∀ q ∈ roster.ids, q ≠ p →
      (∃ c, w q = some c ∧ p ∈ c.probe.heardFrom) ∧
        q ∈ b.probe.answeredBy ∧ q ∈ b.probe.heardFrom) ∧
    (b.gate ≠ .passed →
      (0 < (interval p).nanos → ∀ q ∈ roster.ids, q ≠ p → q ∉ b.probe.answeredBy →
        ∃ target, roster.addressOf q = some target ∧ b.Probes target) ∧
      ∀ q c, w q = some c → q ≠ p → q ∉ b.probe.heardFrom →
        c.gate ≠ .passed ∧ (0 < (interval q).nanos →
          ∃ target, roster.addressOf p = some target ∧ c.Probes target)) := by
  have sound := reachable.sound p b here
  constructor
  · intro passed q member other
    obtain ⟨answered, heard⟩ := sound.of_passed passed member other
    exact ⟨sound.answered q answered, answered, heard⟩
  · intro behind
    refine ⟨fun period q member other silent => sound.probes behind period member other silent,
      fun q c there other unheard => ?_⟩
    have far := reachable.sound q c there
    -- an answer of this member would mean that it has heard the other one
    have silent : p ∉ c.probe.answeredBy := by
      intro answered
      obtain ⟨b', here', heard⟩ := far.answered p answered
      obtain rfl : b = b' := Option.some.inj (here.symm.trans here')
      exact unheard heard
    have waits : c.gate ≠ .passed := fun passed =>
      silent (far.of_passed passed sound.member other.symm).1
    exact ⟨waits, fun period => far.probes waits period sound.member other.symm silent⟩

/-- The second member has heard the first one, but its own probe was not answered yet when the first
one passed. -/
theorem nobody_left_waiting_of_pair :
    let roster : Roster := .ofAddresses [.loopback 1, .loopback 2] (by decide) (by decide)
    let second : MemberId → Span := fun _ => .ofSeconds 1
    let w := run roster second (fun _ => none) [.start ⟨1⟩ 0, .settle ⟨1⟩ 0, .start ⟨2⟩ 5,
      .settle ⟨2⟩ 5, .handOver ⟨1⟩ 0 5, .handOver ⟨2⟩ 1 5, .handOver ⟨2⟩ 0 5]
    ∃ b c, w ⟨1⟩ = some b ∧ w ⟨2⟩ = some c ∧
      b.gate = .passed ∧ ⟨2⟩ ∈ b.probe.answeredBy ∧ c.gate ≠ .passed ∧
      ∃ target, roster.addressOf ⟨1⟩ = some target ∧ c.Probes target := by
  intro roster second w
  have reachable : Reachable roster second w := Reachable.start.run _
  have run : ((w ⟨1⟩).any fun b => decide (b.gate = .passed)) = true ∧
      ((w ⟨2⟩).any fun c => decide (c.gate ≠ .passed ∧ ⟨1⟩ ∉ c.probe.answeredBy)) = true := by
    decide +kernel
  obtain ⟨b, first, passed⟩ := (Option.any_eq_true ..).mp run.1
  obtain ⟨c, other, waits⟩ := (Option.any_eq_true ..).mp run.2
  obtain ⟨behind, silent⟩ := of_decide_eq_true waits
  have ready := (nobody_left_waiting reachable first).1 (of_decide_eq_true passed) ⟨2⟩
    (by decide) (by decide)
  have probing := ((nobody_left_waiting reachable other).2 behind).1 (by decide) ⟨1⟩
    (by decide) (by decide) silent
  exact ⟨b, c, first, other, of_decide_eq_true passed, ready.2.1, behind, probing⟩

end Gathering

end Concord
