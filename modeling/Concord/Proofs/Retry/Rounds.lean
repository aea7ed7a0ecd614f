import Concord.Proofs.Retry.Courier
import Mathlib.Data.List.Infix

/-!
What holds of a courier in every run: the outbox holds what its deeds leave owed, the loop stands
where its last round has left it, and everything handed over is of a round that was due.
-/

namespace Concord.Courier

open Note

variable {α : Type} [Mail α]

/-- What the outbox holds comes from what was done to it. -/
structure Upright (g : Group) (c : Courier α) : Prop where
  sound : c.outbox.Sound
  known : ∀ item member, c.outbox.Owes item member → member ∈ g.ids
  owing : c.outbox.owing = Deed.owed (deeds c.history)

/-- Something waits for the loop. -/
def Hungry (c : Courier α) (since : List (Note α)) : Prop :=
  c.outbox.parcels ≠ [] ∨ feedings since ≠ []

variable {g : Group} {base ceiling : Span} {transport : Transport} {s : Schedule}
  {c d : Courier α} {loop : Option Pump}

theorem Upright.deed (h : c.Upright g) {x : Deed α} (allowed : c.outbox.Allows g x) :
    Upright g { c with
      outbox := c.outbox.perform x, history := c.history ++ [.deed c.now x] } where
  sound := Outbox.sound_perform h.sound allowed.1
  known := Outbox.known_perform h.known allowed.2
  owing := by
    have done : deeds (c.history ++ [.deed c.now x]) = deeds c.history ++ [x] := deeds_concat _ _
    rw [done, Deed.owed_concat, ← h.owing]
    exact Outbox.owing_perform h.sound x

/-- A round brings everything that is owed, for every recipient is of the group. -/
theorem Upright.brings [Posted α] (h : c.Upright g) :
    List.Forall₂ (Outbox.Brings g.addressOf) (c.round g) (Deed.owed (deeds c.history)) := by
  rw [← h.owing]
  exact Outbox.round_brings fun item member owes =>
    Group.exists_addressOf (h.known item member owes)

theorem Upright.parcels_eq_nil (h : c.Upright g) (nothing : c.round g = []) :
    c.outbox.parcels = [] :=
  Outbox.parcels_eq_nil_of_round h.sound.awaited
    (fun item member owes => Group.exists_addressOf (h.known item member owes)) nothing

theorem hungry_deed {since : List (Note α)} {x : Deed α}
    (hungry : Hungry { c with
      outbox := c.outbox.perform x, history := c.history ++ [.deed c.now x] }
      (since ++ [.deed c.now x])) :
    0 < (c.outbox.perform x).calls ∨
      c.Hungry since ∧ c.outbox.calls ≤ (c.outbox.perform x).calls := by
  cases feeds : x.feeds with
  | true =>
    obtain ⟨more, first⟩ := Outbox.calls_of_feeds (o := c.outbox) feeds
    by_cases none : c.outbox.parcels = []
    · exact .inl (first none)
    · exact .inr ⟨.inl none, more⟩
  | false =>
    obtain ⟨same, left⟩ := Outbox.calls_of_not_feeds (o := c.outbox) feeds
    refine .inr ⟨hungry.imp left fun fed none => fed ?_, Nat.le_of_eq same.symm⟩
    rw [feedings_concat, none, fed?, feeds]
    rfl

variable [Timer]

theorem Upright.step (h : c.Upright g) (step : Step g base ceiling transport c d) :
    d.Upright g := by
  cases step with
  | deed allowed => exact h.deed allowed
  | begin =>
    refine ⟨h.sound, h.known, h.owing.trans (congrArg Deed.owed ?_)⟩
    exact ((deeds_concat _ _).trans (List.append_nil _)).symm
  | call => exact ⟨⟨h.sound.distinct, h.sound.awaited⟩, h.known, h.owing⟩
  | turn =>
    refine ⟨h.sound, h.known, h.owing.trans (congrArg Deed.owed ?_)⟩
    unfold turned
    dsimp only
    split
    · exact ((deeds_concat _ _).trans (List.append_nil _)).symm
    · rfl
  | wait => exact ⟨h.sound, h.known, h.owing⟩

/-- Where the loop stands after its last round, one case for each phase. After a round that found
nothing a call is on its way to the loop, or kept by it, as long as something waits. -/
inductive Standing (s : Schedule) (c : Courier α) : Option Pump → Prop where
  | absent (quiet : Quiet c.history) (unbegun : ∀ t, .begun t ∉ c.history) : Standing s c none
  | ready {schedule called} (timely : Timely s c.history c.now)
      (count : schedule = s.after (streak c.history)) :
      Standing s c (some ⟨.ready, schedule, called⟩)
  | sending {earlier mail since called} (latest : Latest c.history earlier c.now mail since)
      (mailed : mail ≠ []) : Standing s c (some ⟨.sending mail, s.after (streak earlier), called⟩)
  | pausing {earlier time mail since called} (latest : Latest c.history earlier time mail since)
      (mailed : mail ≠ []) (early : c.now ≤ pauseEnd s earlier time) :
      Standing s c (some ⟨.pausing (Instant.after time (s.pause (streak earlier))),
        s.after (streak earlier + 1), called⟩)
  | idle {earlier since called} (latest : Latest c.history earlier c.now [] since)
      (fed : ∀ t ∈ feedings since, c.now = t)
      (heard : c.Hungry since → 0 < c.outbox.calls ∨ called = true) :
      Standing s c (some ⟨.idle, s, called⟩)
  | waiting {earlier time since called} (latest : Latest c.history earlier time [] since)
      (fed : ∀ t ∈ feedings since, c.now = t) (heard : c.Hungry since → 0 < c.outbox.calls)
      (late : 0 < c.outbox.calls → feedings since = [] → c.now = time) :
      Standing s c (some ⟨.waiting, s, called⟩)

theorem Standing.deed (stands : Standing s c loop) (x : Deed α) :
    Standing s { c with
      outbox := c.outbox.perform x, history := c.history ++ [.deed c.now x] } loop := by
  cases stands with
  | absent quiet unbegun =>
    exact .absent (quiet.concat rfl) fun t ht => unbegun t (begun_of_concat ht)
  | ready timely count =>
    exact .ready (timely.deed x) (count.trans (congrArg s.after (streak_concat _ rfl).symm))
  | sending latest mailed => exact .sending (latest.concat rfl) mailed
  | pausing latest mailed early => exact .pausing (latest.concat rfl) mailed early
  | idle latest fed heard =>
    refine .idle (latest.concat rfl) (forall_feedings_concat fed x) fun hungry => ?_
    rcases hungry_deed hungry with called | ⟨before, more⟩
    · exact .inl called
    · exact (heard before).imp_left fun called => Nat.lt_of_lt_of_le called more
  | waiting latest fed heard late =>
    refine .waiting (latest.concat rfl) (forall_feedings_concat fed x) (fun hungry => ?_)
      fun called none => ?_
    · rcases hungry_deed hungry with called | ⟨before, more⟩
      · exact called
      · exact Nat.lt_of_lt_of_le (heard before) more
    · rw [feedings_concat] at none
      obtain ⟨old, new⟩ := List.append_eq_nil_iff.mp none
      have idle : x.feeds = false := by
        cases feeds : x.feeds with
        | false => rfl
        | true =>
          rw [fed?, feeds] at new
          cases new
      exact late (Nat.lt_of_lt_of_eq called (Outbox.calls_of_not_feeds idle).1) old

omit [Mail α] in
theorem Standing.begin (stands : Standing s c none) :
    Standing s { c with loop := some ⟨.ready, s, false⟩, history := c.history ++ [.begun c.now] }
      (some ⟨.ready, s, false⟩) := by
  cases stands with
  | absent quiet unbegun =>
    have begun : Quiet (c.history ++ [.begun c.now]) := quiet.concat rfl
    refine .ready (.first begun (List.mem_append_right _ List.mem_cons_self) fun t ht => ?_) ?_
    · rcases List.mem_append.mp ht with old | new
      · exact absurd old (unbegun t)
      · cases List.mem_singleton.mp new
        rfl
    · exact congrArg s.after (begun.foldl_tally 0).symm

omit [Mail α] in
/-- A call wakes a loop that waits, at the instant of whatever has been put since. -/
theorem Standing.call {pump : Pump} (stands : Standing s c (some pump)) {calls : Nat}
    (outstanding : c.outbox.calls = calls + 1) :
    Standing s { c with outbox := { c.outbox with calls }, loop := some pump.call }
      (some pump.call) := by
  cases stands with
  | ready timely count => exact .ready timely count
  | sending latest mailed => exact .sending latest mailed
  | pausing latest mailed early => exact .pausing latest mailed early
  | idle latest fed heard => exact .idle latest fed fun _ => .inr rfl
  | waiting latest fed heard late =>
    have called : 0 < c.outbox.calls := by omega
    exact .ready (.called latest fed (late called)) (congrArg s.after latest.streak_eq.symm)

theorem Standing.turn [Posted α] {pump next : Pump} {mail : List (Address × Bytes)}
    (stands : Standing s c (some pump)) (fresh : s.current = s.base) (upright : c.Upright g)
    (rung : ∀ due, pump.due? = some due → Instant.roundUp due ≤ c.now)
    (moved : pump.Moves c.now (c.round g) next mail) :
    Standing s (c.turned g transport pump next mail) (some next) := by
  cases stands with
  | ready timely count =>
    cases moved with
    | take found =>
      subst count
      exact .sending (latest_concat _ _ _) found
    | stop nothing =>
      subst count
      rw [Schedule.reset_after fresh]
      have latest := latest_concat c.history c.now (c.round g)
      rw [nothing] at latest
      refine .idle (by unfold turned; rw [nothing]; exact latest) (fun _ ht => by cases ht) ?_
      rintro (held | fed)
      · exact absurd (upright.parcels_eq_nil nothing) held
      · exact absurd rfl fed
  | sending latest mailed =>
    cases moved with
    | send =>
      refine .pausing latest mailed ?_
      exact Nat.le_trans (Nat.le_add_right _ _) (Instant.le_roundUp _)
  | pausing latest mailed early =>
    cases moved with
    | wake =>
      refine .ready (.paused latest mailed ?_) ?_
      · exact Nat.le_antisymm early (rung _ rfl)
      · exact congrArg s.after (latest.streak_eq.trans (if_neg mailed)).symm
  | idle latest fed heard =>
    have none : s = s.after (streak c.history) := congrArg s.after latest.streak_eq.symm
    cases moved with
    | again => exact .ready (.called latest fed fun _ => rfl) none
    | wait =>
      refine .waiting latest fed (fun hungry => ?_) fun _ _ => rfl
      exact (heard hungry).resolve_right Bool.false_ne_true
  | waiting => cases moved

omit [Mail α] in
/-- While time passes nothing waits for the loop. -/
theorem Standing.wait (stands : Standing s c loop) {later : Instant}
    (rests : ∀ pump, loop = some pump → c.outbox.calls = 0 ∧ pump.Rests later) :
    Standing s { c with now := later } loop := by
  cases stands with
  | absent quiet unbegun => exact .absent quiet unbegun
  | ready | sending | idle =>
    rcases (rests _ rfl).2 with waiting | ⟨due, set, -⟩
    · cases waiting
    · cases set
  | pausing latest mailed =>
    rcases (rests _ rfl).2 with waiting | ⟨due, set, early⟩
    · cases waiting
    · cases set
      exact .pausing latest mailed early
  | @waiting _ _ since _ latest fed heard late =>
    -- with no call on its way nothing has been put since the round
    have none : c.outbox.calls = 0 := (rests _ rfl).1
    have unfed : feedings since = [] := by
      refine Classical.byContradiction fun fed => ?_
      exact Nat.lt_irrefl 0 (none ▸ heard (.inr fed))
    exact .waiting latest (fun t ht => by rw [unfed] at ht; cases ht) heard
      fun called => absurd none (Nat.ne_of_gt called)

/-- Every round of a history comes when it is due and brings what is owed then. -/
def Punctual [Posted α] (g : Group) (s : Schedule) (h : List (Note α)) : Prop :=
  ∀ earlier time mail, earlier ++ [.round time mail] <+: h →
    Timely s earlier time ∧
      List.Forall₂ (Outbox.Brings g.addressOf) mail (Deed.owed (deeds earlier))

theorem Punctual.concat [Posted α] {h : List (Note α)} (punctual : Punctual g s h) {n : Note α}
    (new : ∀ time mail, n = .round time mail →
      Timely s h time ∧ List.Forall₂ (Outbox.Brings g.addressOf) mail (Deed.owed (deeds h))) :
    Punctual g s (h ++ [n]) := by
  intro earlier time mail split
  rcases List.prefix_concat_iff.mp split with last | before
  · obtain ⟨rfl, same⟩ := List.append_inj' last rfl
    exact new time mail (List.cons.inj same).1.symm
  · exact punctual earlier time mail before

omit [Mail α] in
theorem Standing.timely {pump : Pump} (stands : Standing s c (some pump))
    (ready : pump.phase = .ready) : Timely s c.history c.now := by
  cases stands with
  | ready timely => exact timely
  | sending | pausing | idle | waiting => cases ready

theorem Punctual.step [Posted α] (h : Punctual g s c.history) (upright : c.Upright g)
    (stands : Standing s c c.loop) (step : Step g base ceiling transport c d) :
    Punctual g s d.history := by
  cases step with
  | deed | begin => exact h.concat fun _ _ other => by cases other
  | turn running rung moved =>
    unfold turned
    dsimp only
    split
    · rename_i ready
      refine h.concat fun _ _ same => ?_
      cases same
      exact ⟨(running ▸ stands).timely ready, upright.brings⟩
    · exact h
  | call | wait => exact h

/-- Everything handed to the network is of a round, one round after the other. -/
def Accounted (c : Courier α) : Prop :=
  c.attempts.map Attempt.sent ++ c.inHand = c.history.flatMap Note.mail

theorem Accounted.turn {pump next : Pump} {mail : List (Address × Bytes)} (h : c.Accounted)
    (running : c.loop = some pump) (moved : pump.Moves c.now (c.round g) next mail) :
    (c.turned g transport pump next mail).Accounted := by
  have before : c.attempts.map Attempt.sent ++ c.inHand = c.history.flatMap Note.mail := h
  rw [inHand, running] at before
  change (handOver transport c.attempts (Sent.all c.now mail)).map Attempt.sent ++ _ = _
  rw [sent_handOver]
  cases moved with
  | take | stop =>
    rw [List.append_nil] at before
    simp [turned, inHand, Sent.all, Note.mail, *]
  | send | wake | again | wait => exact (List.append_nil _).trans before

omit [Mail α] [Timer] in
theorem Accounted.concat (h : c.attempts.map Attempt.sent ++ c.inHand = c.history.flatMap Note.mail)
    {n : Note α} (other : n.mail = []) :
    c.attempts.map Attempt.sent ++ c.inHand = (c.history ++ [n]).flatMap Note.mail := by
  rw [List.flatMap_append, List.flatMap_singleton, other, List.append_nil]
  exact h

theorem Accounted.step (valid : Schedule.start base ceiling = .ok s) (h : c.Accounted)
    (step : Step g base ceiling transport c d) : d.Accounted := by
  cases step with
  | deed => exact Accounted.concat h rfl
  | begin idle started =>
    rw [Pump.start_eq_ok valid started]
    have before := Accounted.concat h (n := .begun c.now) rfl
    rw [inHand, idle] at before
    exact before
  | @call pump calls running =>
    have before : c.attempts.map Attempt.sent ++ c.inHand = c.history.flatMap Note.mail := h
    rw [inHand, running] at before
    obtain ⟨phase, schedule, called⟩ := pump
    cases phase <;> exact before
  | turn running rung moved => exact h.turn running (Pump.moves_of_step? moved)
  | @wait later forward rests =>
    have before : c.attempts.map Attempt.sent ++ c.inHand = c.history.flatMap Note.mail := h
    have still : inHand { c with now := later } = c.inHand := by
      unfold inHand
      cases loop : c.loop with
      | none => rfl
      | some pump =>
        obtain ⟨phase, schedule, called⟩ := pump
        cases phase with
        | ready | idle | waiting | pausing => rfl
        | sending =>
          rcases (rests _ loop).2 with waiting | ⟨due, set, -⟩
          · cases waiting
          · cases set
    exact (congrArg _ still).trans before

/-- What every step of a run keeps. -/
structure Course [Posted α] (g : Group) (s : Schedule) (transport : Transport) (c : Courier α) :
    Prop where
  upright : c.Upright g
  standing : Standing s c c.loop
  punctual : Punctual g s c.history
  accounted : c.Accounted
  honest : Honest transport c.attempts

theorem course_start [Posted α] (g : Group) (s : Schedule) (transport : Transport) :
    Course g s transport (start : Courier α) where
  upright := ⟨Outbox.sound_empty, fun i m owes => absurd owes (Outbox.not_owes_empty i m), rfl⟩
  standing := .absent (fun _ h => by cases h) (fun _ h => by cases h)
  punctual _ _ _ h := by simp [start] at h
  accounted := rfl
  honest _ _ h := by simp [start] at h

theorem Course.step [Posted α] (valid : Schedule.start base ceiling = .ok s)
    (h : Course g s transport c) (step : Step g base ceiling transport c d) :
    Course g s transport d := by
  have fresh := Schedule.start_eq_ok valid
  refine ⟨h.upright.step step, ?_, h.punctual.step h.upright h.standing step,
    h.accounted.step valid step, ?_⟩
  · cases step with
    | deed => exact h.standing.deed _
    | begin idle started =>
      rw [Pump.start_eq_ok valid started]
      exact (idle ▸ h.standing).begin
    | call running outstanding => exact (running ▸ h.standing).call outstanding
    | turn running rung moved =>
      exact (running ▸ h.standing).turn fresh h.upright rung (Pump.moves_of_step? moved)
    | wait forward rests => exact h.standing.wait rests
  · cases step with
    | turn => exact honest_handOver h.honest _
    | deed | begin | call | wait => exact h.honest

theorem Reachable.course [Posted α] (valid : Schedule.start base ceiling = .ok s)
    (h : Reachable g base ceiling transport c) : Course g s transport c := by
  induction h with
  | start => exact course_start g s transport
  | next _ step ih => exact ih.step valid step

end Concord.Courier
