import Concord.Proofs.Retry.Settling
import Concord.Time.Millis

/-!
Rounds of retransmission in all runs of a courier: what each round brings, when it starts, and that
failures of the network change neither.
-/

namespace Concord

/-- Every datagram of a round is for something that is owed. -/
theorem Outbox.exists_brought {α : Type} [Mail α] [Posted α] {addressOf : MemberId → Option Address}
    {mail : List (Address × Bytes)} {owed : List (α × MemberId)}
    (h : List.Forall₂ (Brings addressOf) mail owed) {datagram : Address × Bytes}
    (listed : datagram ∈ mail) : ∃ x ∈ owed, Brings addressOf datagram x := by
  induction h with
  | nil => cases listed
  | cons here _ ih =>
    rcases List.mem_cons.mp listed with rfl | there
    · exact ⟨_, List.mem_cons_self, here⟩
    · obtain ⟨x, owed, brings⟩ := ih there
      exact ⟨x, List.mem_cons_of_mem _ owed, brings⟩

namespace Courier

open Note

variable {α : Type} [Mail α]

/-- After a part of its history the courier took a round. -/
def Took (c : Courier α) (h : List (Note α)) (time : Instant) (mail : List (Address × Bytes)) :
    Prop := h ++ [.round time mail] <+: c.history

section

variable [Timer]

/-- What holds of the rounds that a courier has taken, and of the one that is to come. -/
structure Regular [Posted α] (g : Group) (s : Schedule) (transport : Transport) (c : Courier α) :
    Prop where
  owing : c.outbox.owing = Deed.owed (deeds c.history)
  /-- What has been handed over or is in hand is the mail of the rounds, one after the other. -/
  sent : c.attempts.map Attempt.sent ++ c.inHand = c.history.flatMap Note.mail
  outcomes : Honest transport c.attempts
  /-- A round is one datagram for everything that is owed when it starts, in that order. -/
  brings : ∀ h time mail, c.Took h time mail →
    List.Forall₂ (Outbox.Brings g.addressOf) mail (Deed.owed (deeds h))
  /-- No datagram is for a member that has been struck off. -/
  spares : ∀ h time mail, c.Took h time mail → ∀ datagram ∈ mail,
    ∃ before item recipients later member, deeds h = before ++ .put item recipients :: later ∧
      member ∈ recipients ∧ (∀ d ∈ later, d.strikes item member = false) ∧
      Outbox.Brings g.addressOf datagram (item, member)
  /-- The first round starts when the loop begins. -/
  first : ∀ h time mail, c.Took h time mail → Quiet h → .begun time ∈ h
  /-- After a round with mail the next one starts when a timer goes off that is set for the pause. -/
  paused : ∀ h next found, c.Took h next found → ∀ earlier time mail since,
    Latest h earlier time mail since → mail ≠ [] → next = pauseEnd s earlier time
  /-- A pause within reach of the timers is not cut short, and the rounds are apart by just the pause
  if the timers' clock has a reading at its end. -/
  apart : ∀ h next found, c.Took h next found → ∀ earlier time mail since,
    Latest h earlier time mail since → mail ≠ [] →
      (s.pause (streak earlier)).nanos ≤ (Timer.reach).nanos →
        let pauseOver := time + (s.pause (streak earlier)).nanos
        pauseOver ≤ next ∧ (Instant.roundUp pauseOver = pauseOver → next = pauseOver)
  /-- After a round that found nothing the next one starts when something is put. -/
  called : ∀ h next found, c.Took h next found → ∀ earlier time since,
    Latest h earlier time [] since →
      (∀ t ∈ feedings since, next = t) ∧ (feedings since = [] → next = time)
  /-- No round is late. -/
  pendingFirst : Quiet c.history → ∀ t, .begun t ∈ c.history → c.now = t
  pendingPaused : ∀ earlier time mail since, Latest c.history earlier time mail since →
    mail ≠ [] → c.now ≤ pauseEnd s earlier time
  pendingCalled : ∀ earlier time since, Latest c.history earlier time [] since →
    ∀ t ∈ feedings since, c.now = t

variable {g : Group} {base ceiling : Span} {transport : Transport} {s : Schedule}
  {c d : Courier α} {loop : Option Pump}

omit [Mail α] in
theorem Standing.pendingFirst (stands : Standing s c loop) (quiet : Quiet c.history) :
    ∀ t, .begun t ∈ c.history → c.now = t := by
  cases stands with
  | absent _ unbegun => exact fun t begun => absurd begun (unbegun t)
  | ready timely => exact (timely.of_quiet quiet).2
  | sending latest | pausing latest | idle latest | waiting latest =>
    exact absurd quiet latest.not_quiet

omit [Mail α] in
theorem Standing.pendingPaused (stands : Standing s c loop) {earlier since : List (Note α)}
    {time : Instant} {mail : List (Address × Bytes)}
    (latest : Latest c.history earlier time mail since) (mailed : mail ≠ []) :
    c.now ≤ pauseEnd s earlier time := by
  cases stands with
  | absent quiet => exact absurd quiet latest.not_quiet
  | ready timely => exact Nat.le_of_eq (timely.of_mail latest mailed)
  | sending latest' =>
    obtain ⟨rfl, rfl, -⟩ := latest'.unique latest
    exact Nat.le_trans (Nat.le_add_right _ _) (Instant.le_roundUp _)
  | pausing latest' _ early =>
    obtain ⟨rfl, rfl, -⟩ := latest'.unique latest
    exact early
  | idle latest' | waiting latest' =>
    obtain ⟨-, -, rfl, -⟩ := latest'.unique latest
    exact absurd rfl mailed

omit [Mail α] in
theorem Standing.pendingCalled (stands : Standing s c loop) {earlier since : List (Note α)}
    {time : Instant} (latest : Latest c.history earlier time [] since) :
    ∀ t ∈ feedings since, c.now = t := by
  cases stands with
  | absent quiet => exact absurd quiet latest.not_quiet
  | ready timely => exact (timely.of_none latest).1
  | sending latest' mailed | pausing latest' mailed =>
    obtain ⟨-, -, rfl, -⟩ := latest'.unique latest
    exact absurd rfl mailed
  | idle latest' fed | waiting latest' fed =>
    obtain ⟨-, -, -, rfl⟩ := latest'.unique latest
    exact fed

theorem Course.regular [Posted α] (h : Course g s transport c) : c.Regular g s transport where
  owing := h.upright.owing
  sent := h.accounted
  outcomes := h.honest
  brings earlier time mail took := (h.punctual earlier time mail took).2
  spares earlier time mail took datagram listed := by
    obtain ⟨⟨item, member⟩, owed, brings⟩ :=
      Outbox.exists_brought (h.punctual earlier time mail took).2 listed
    obtain ⟨before, recipients, later, split, recipient, kept⟩ := Deed.mem_owed_iff.mp owed
    exact ⟨before, item, recipients, later, member, split, recipient, kept, brings⟩
  first earlier time mail took quiet :=
    ((h.punctual earlier time mail took).1.of_quiet quiet).1
  paused earlier next found took _ _ _ _ := (h.punctual earlier next found took).1.of_mail
  apart earlier next found took _ _ _ _ latest mailed near := by
    rw [(h.punctual earlier next found took).1.of_mail latest mailed]
    exact ⟨le_pauseEnd near, pauseEnd_eq near⟩
  called earlier next found took _ _ _ := (h.punctual earlier next found took).1.of_none
  pendingFirst := h.standing.pendingFirst
  pendingPaused _ _ _ _ := h.standing.pendingPaused
  pendingCalled _ _ _ := h.standing.pendingCalled

/-- The same run on another network. -/
def through (other : Transport) (c : Courier α) : Courier α :=
  { c with attempts := handOver other [] (c.attempts.map Attempt.sent) }

omit [Timer] in
theorem turned_through (other : Transport) (c : Courier α) (pump next : Pump)
    (mail : List (Address × Bytes)) : (c.turned g transport pump next mail).through other =
      (c.through other).turned g other pump next mail := by
  have attempts : handOver other [] ((handOver transport c.attempts (Sent.all c.now mail)).map
      Attempt.sent) = handOver other (handOver other [] (c.attempts.map Attempt.sent))
      (Sent.all c.now mail) := by
    rw [sent_handOver]
    exact List.foldl_append
  simp only [Courier.through, turned, attempts]
  rfl

theorem Step.through (other : Transport) (step : Step g base ceiling transport c d) :
    Step g base ceiling other (c.through other) (d.through other) := by
  cases step with
  | deed allowed => exact .deed (c.through other) allowed
  | begin idle started => exact .begin (c.through other) idle started
  | call running outstanding => exact .call (c.through other) running outstanding
  | turn running rung moved =>
    rw [turned_through]
    exact .turn (c.through other) running rung moved
  | wait forward rests => exact .wait (c.through other) forward rests

theorem Reachable.through (other : Transport) (h : Reachable g base ceiling transport c) :
    Reachable g base ceiling other (c.through other) := by
  induction h with
  | start => exact .start
  | next _ step ih => exact ih.next (step.through other)

/-- The loop sends in rounds, each at its time and each bringing what is owed then. Time never
stops, and whatever the network makes of the attempts, the same attempts are made. -/
theorem sends_in_rounds [Posted α] (valid : Schedule.start base ceiling = .ok s)
    (reached : Reachable g base ceiling transport c) :
    c.Regular g s transport ∧
    (∃ d, Relation.ReflTransGen (Step g base ceiling transport) c d ∧ c.now < d.now ∧
      deeds d.history = deeds c.history) ∧
    ∀ other : Transport, ∃ d, Reachable g base ceiling other d ∧ d.now = c.now ∧
      d.history = c.history ∧ d.attempts.map Attempt.sent = c.attempts.map Attempt.sent := by
  refine ⟨(reached.course valid).regular, exists_later valid reached, fun other => ?_⟩
  exact ⟨c.through other, reached.through other, rfl, rfl, sent_handOver other [] _⟩

end

/-- The network is down, and the second round comes after the pause all the same. -/
theorem sends_in_rounds_of_broken :
    let g : Group := ⟨⟨1⟩, Group.onLoopback 2⟩
    let base : Span := .ofMillis 200
    let ceiling : Span := .ofSeconds 4
    let broken : Transport := fun _ _ => .error "unreachable"
    let m : Message := ⟨⟨⟨1⟩, 1⟩, 1⟩
    let mail := [(Address.loopback 2, m.encode)]
    ∃ (s : Schedule) (c : Courier Message), Schedule.start base ceiling = .ok s ∧
      Reachable g base ceiling broken c ∧
      c.attempts = [⟨⟨0, .loopback 2, m.encode⟩, .error "unreachable"⟩] ∧
      c.history =
        [.begun 0, .round 0 [], .deed 0 (.put m [⟨2⟩]), .round 0 mail, .round 200000000 mail] ∧
      200000000 = 0 + (s.pause 0).nanos := by
  intro g base ceiling broken m mail
  let s : Schedule := ⟨base, base, ceiling, by decide, by decide⟩
  have valid : Schedule.start base ceiling = .ok s := rfl
  let past : List (Note Message) := [.begun 0, .round 0 []]
  let fed : List (Note Message) := past ++ [.deed 0 (.put m [⟨2⟩])]
  let full : Outbox Message := ⟨[⟨m, .ofList [⟨2⟩]⟩], 0⟩
  let tried : List Attempt := [⟨⟨0, .loopback 2, m.encode⟩, .error "unreachable"⟩]
  let pause : Pump := ⟨.pausing (Instant.after 0 base), s.next.2, false⟩
  have begun : Reachable g base ceiling broken
      (⟨0, .empty, some ⟨.ready, s, false⟩, [], [.begun 0]⟩ : Courier Message) :=
    .next .start (.begin _ rfl rfl)
  have idle : Reachable g base ceiling broken
      ⟨0, .empty, some ⟨.idle, s, false⟩, [], past⟩ := (begun.next (.turn _ rfl nofun rfl) :)
  have waiting : Reachable g base ceiling broken
      ⟨0, .empty, some ⟨.waiting, s, false⟩, [], past⟩ := (idle.next (.turn _ rfl nofun rfl) :)
  have put : Reachable g base ceiling broken
      ⟨0, { full with calls := 1 }, some ⟨.waiting, s, false⟩, [], fed⟩ := by
    have allowed : Outbox.empty.Allows g (.put m [⟨2⟩]) := by
      refine ⟨nofun, ?_⟩
      rintro _ _ ⟨⟩
      decide
    exact (waiting.next (.deed _ allowed) :)
  have woken : Reachable g base ceiling broken
      ⟨0, full, some ⟨.ready, s, false⟩, [], fed⟩ := (put.next (.call _ rfl rfl) :)
  have sending : Reachable g base ceiling broken
      ⟨0, full, some ⟨.sending mail, s, false⟩, [], fed ++ [.round 0 mail]⟩ :=
    (woken.next (.turn _ rfl nofun rfl) :)
  have pausing : Reachable g base ceiling broken
      ⟨0, full, some pause, tried, fed ++ [.round 0 mail]⟩ :=
    (sending.next (.turn _ rfl nofun rfl) :)
  have later : Reachable g base ceiling broken
      ⟨200000000, full, some pause, tried, fed ++ [.round 0 mail]⟩ := by
    refine pausing.next (.wait _ (by decide) ?_)
    rintro _ ⟨⟩
    exact ⟨rfl, .inr ⟨_, rfl, by decide⟩⟩
  have elapsed : Reachable g base ceiling broken
      ⟨200000000, full, some ⟨.ready, s.next.2, false⟩, tried, fed ++ [.round 0 mail]⟩ := by
    have rung : ∀ due, pause.due? = some due → Instant.roundUp due ≤ 200000000 := by
      rintro _ ⟨⟩
      decide
    exact (later.next (.turn _ rfl rung rfl) :)
  have again : Reachable g base ceiling broken
      ⟨200000000, full, some ⟨.sending mail, s.next.2, false⟩, tried,
        fed ++ [.round 0 mail, .round 200000000 mail]⟩ := (elapsed.next (.turn _ rfl nofun rfl) :)
  have regular := (sends_in_rounds valid again).1
  have gap := (regular.apart (fed ++ [.round 0 mail]) 200000000 mail ⟨[], rfl⟩ fed 0 mail []
    ⟨rfl, nofun⟩ nofun (by decide)).2 (by decide)
  exact ⟨s, _, valid, again, rfl, rfl, gap⟩

end Courier

end Concord
