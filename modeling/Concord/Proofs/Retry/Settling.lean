import Concord.Proofs.Retry.Rounds
import Mathlib.Logic.Relation

/-!
A sending loop comes to rest at every instant, so time can always go on. Where timers go off it
does what all its steps at that instant do together.
-/

namespace Concord

namespace Pump

theorem schedule_callTimes (p : Pump) (n : Nat) : (p.callTimes n).schedule = p.schedule := by
  induction n generalizing p with
  | zero => rfl
  | succ n ih =>
    refine (ih p.call).trans ?_
    unfold call
    split <;> rfl

variable [Timer]

/-- The number of steps the loop takes at an instant at most. -/
def work (now : Instant) : Pump → Nat
  | ⟨.waiting, _, _⟩ => 0
  | ⟨.pausing due, _, _⟩ => if now < Instant.roundUp due then 0 else 5
  | ⟨.sending _, _, _⟩ => 1
  | ⟨.idle, _, called⟩ => if called then 3 else 1
  | ⟨.ready, _, called⟩ => if called then 4 else 2

variable {now : Instant} {round mail : List (Address × Bytes)} {p next : Pump}

theorem work_le (now : Instant) (p : Pump) : p.work now ≤ 5 := by
  unfold work
  split <;> (try split) <;> decide

theorem rests_of_work_eq_zero (h : p.work now = 0) : p.Rests (now + 1) := by
  unfold work at h
  split at h
  · exact .inl rfl
  · rename_i due _ _
    split at h
    · exact .inr ⟨due, rfl, Nat.succ_le_of_lt ‹_›⟩
    · cases h
  · cases h
  · split at h <;> cases h
  · split at h <;> cases h

theorem Moves.current_pos (moved : p.Moves now round next mail)
    (h : 0 < p.schedule.current.nanos) : 0 < next.schedule.current.nanos := by
  cases moved with
  | stop => exact Schedule.base_pos _
  | send => exact Schedule.next_pos h
  | take | wake | again | wait => exact h

theorem Moves.work_lt (moved : p.Moves now round next mail) (h : 0 < p.schedule.current.nanos)
    (rung : ∀ due, p.due? = some due → Instant.roundUp due ≤ now) : next.work now < p.work now := by
  cases moved with
  | @take schedule called | @stop schedule called => cases called <;> simp [work]
  | @send taken schedule called =>
    have later : now < Instant.roundUp (Instant.after now schedule.next.1) :=
      Nat.lt_of_lt_of_le (Instant.lt_after h) (Instant.le_roundUp _)
    rw [work, work, if_pos later]
    exact Nat.zero_lt_one
  | @wake due schedule called =>
    rw [work, work, if_neg (Nat.not_lt.mpr (rung due rfl))]
    cases called <;> decide
  | again | wait => simp [work]

theorem exists_step (round : List (Address × Bytes)) (work : 0 < p.work now) :
    ∃ next mail, p.step? now round = some (next, mail) ∧
      ∀ due, p.due? = some due → Instant.roundUp due ≤ now := by
  obtain ⟨phase, schedule, called⟩ := p
  cases phase with
  | waiting => cases work
  | ready =>
    by_cases nothing : round.isEmpty = true
    · exact ⟨_, _, if_pos nothing, nofun⟩
    · exact ⟨_, _, if_neg nothing, nofun⟩
  | sending taken => exact ⟨_, _, rfl, nofun⟩
  | idle => cases called <;> exact ⟨_, _, rfl, nofun⟩
  | pausing due =>
    have rung : Instant.roundUp due ≤ now := by
      refine Nat.le_of_not_lt fun early => ?_
      rw [Pump.work, if_pos early] at work
      cases work
    refine ⟨_, _, if_pos (Nat.le_trans (Instant.le_roundUp due) rung), ?_⟩
    rintro _ ⟨⟩
    exact rung

/-- At a reading a timer goes off as soon as its instant has come. -/
theorem step?_eq_none (round : List (Address × Bytes)) (whole : Instant.roundUp now = now)
    (h : p.work now = 0) : p.step? now round = none := by
  unfold work at h
  split at h
  · rfl
  · rename_i due _ _
    split at h
    · rename_i early
      refine if_neg fun elapsed => ?_
      have := Instant.roundUp_mono elapsed
      rw [whole] at this
      exact Nat.lt_irrefl _ (Nat.lt_of_lt_of_le early this)
    · cases h
  · cases h
  · split at h <;> cases h
  · split at h <;> cases h

end Pump

namespace Courier

open Note

variable {α : Type} [Mail α] [Timer] {g : Group} {base ceiling : Span} {transport : Transport}

/-- A run of the loop at one instant, in which nothing is done to the outbox. -/
structure Within (g : Group) (base ceiling : Span) (transport : Transport) (c d : Courier α) :
    Prop where
  steps : Relation.ReflTransGen (Step g base ceiling transport) c d
  now : d.now = c.now
  parcels : d.outbox.parcels = c.outbox.parcels
  deeds : deeds d.history = deeds c.history

theorem Within.refl (c : Courier α) : Within g base ceiling transport c c := ⟨.refl, rfl, rfl, rfl⟩

theorem Within.trans {c d e : Courier α} (first : Within g base ceiling transport c d)
    (second : Within g base ceiling transport d e) : Within g base ceiling transport c e where
  steps := first.steps.trans second.steps
  now := second.now.trans first.now
  parcels := second.parcels.trans first.parcels
  deeds := second.deeds.trans first.deeds

theorem within_turn {c : Courier α} {pump next : Pump} {mail : List (Address × Bytes)}
    (running : c.loop = some pump)
    (rung : ∀ due, pump.due? = some due → Instant.roundUp due ≤ c.now)
    (moved : pump.step? c.now (c.round g) = some (next, mail)) :
    Within g base ceiling transport c (c.turned g transport pump next mail) := by
  refine ⟨.single (.turn c running rung moved), rfl, rfl, ?_⟩
  unfold turned
  dsimp only
  split
  · exact (deeds_concat _ _).trans (List.append_nil _)
  · rfl

/-- By turns alone the loop comes to rest. At a reading it has done then what it does when it runs at
once. -/
theorem exists_rest (g : Group) (base ceiling : Span) (transport : Transport) (n : Nat)
    {c : Courier α} {pump : Pump} (running : c.loop = some pump)
    (pos : 0 < pump.schedule.current.nanos) (work : pump.work c.now ≤ n) :
    ∃ d next, Within g base ceiling transport c d ∧ d.outbox = c.outbox ∧ d.loop = some next ∧
      next.work c.now = 0 ∧ (Instant.roundUp c.now = c.now →
        (pump.run c.now (c.round g) n).1 = next ∧ d.attempts.map Attempt.sent =
          c.attempts.map Attempt.sent ++ Sent.all c.now (pump.run c.now (c.round g) n).2) := by
  -- on the work that is left, which every turn makes less
  induction n generalizing c pump with
  | zero =>
    refine ⟨c, pump, .refl c, rfl, running, Nat.le_zero.mp work, fun _ => ⟨rfl, ?_⟩⟩
    exact (List.append_nil _).symm
  | succ n ih =>
    rcases Nat.eq_zero_or_pos (pump.work c.now) with rest | more
    · refine ⟨c, pump, .refl c, rfl, running, rest, fun whole => ?_⟩
      rw [Pump.run, Pump.step?_eq_none _ whole rest]
      exact ⟨rfl, (List.append_nil _).symm⟩
    · obtain ⟨next, mail, moved, rung⟩ := Pump.exists_step (c.round g) more
      have moves := Pump.moves_of_step? moved
      have less := moves.work_lt pos rung
      have turn : Within g base ceiling transport c _ := within_turn running rung moved
      obtain ⟨d, last, within, outbox, loop, rest, together⟩ :=
        ih (c := c.turned g transport pump next mail) rfl (moves.current_pos pos)
          (Nat.le_of_lt_succ (Nat.lt_of_lt_of_le less work))
      refine ⟨d, last, turn.trans within, outbox, loop, rest, fun whole => ?_⟩
      obtain ⟨same, sent⟩ := together whole
      rw [Pump.run, moved]
      refine ⟨same, sent.trans ?_⟩
      change (handOver transport c.attempts (Sent.all c.now mail)).map Attempt.sent ++ _ = _
      rw [sent_handOver, List.append_assoc]
      exact congrArg _ List.map_append.symm

theorem exists_called (n : Nat) {c : Courier α} {pump : Pump} (running : c.loop = some pump)
    (outstanding : c.outbox.calls = n) :
    Within g base ceiling transport c
      { c with outbox := { c.outbox with calls := 0 }, loop := some (pump.callTimes n) } := by
  induction n generalizing c pump with
  | zero =>
    obtain ⟨now, ⟨parcels, calls⟩, loop, attempts, history⟩ := c
    cases running
    cases outstanding
    exact .refl _
  | succ n ih =>
    have one : Within g base ceiling transport c
        { c with outbox := { c.outbox with calls := n }, loop := some pump.call } :=
      ⟨.single (.call c running outstanding), rfl, rfl, rfl⟩
    exact one.trans (ih rfl rfl)

omit [Mail α] in
theorem Standing.current_pos {s : Schedule} {c : Courier α} {pump : Pump}
    (stands : Standing s c (some pump)) (fresh : s.current = s.base) :
    0 < pump.schedule.current.nanos := by
  cases stands with
  | ready timely count => exact count ▸ Schedule.pause_pos fresh _
  | @sending earlier => exact Schedule.pause_pos fresh (streak earlier)
  | @pausing earlier => exact Schedule.pause_pos fresh (streak earlier + 1)
  | idle | waiting => exact Schedule.pause_pos fresh 0

/-- Whatever happens, the loop comes to rest and time goes on, with nothing done to the outbox. -/
theorem exists_later [Posted α] {s : Schedule} {c : Courier α}
    (valid : Schedule.start base ceiling = .ok s) (h : Reachable g base ceiling transport c) :
    ∃ d, Relation.ReflTransGen (Step g base ceiling transport) c d ∧ c.now < d.now ∧
      deeds d.history = deeds c.history := by
  cases loop : c.loop with
  | none =>
    refine ⟨{ c with now := c.now + 1 }, .single (.wait c (Nat.le_succ _) ?_),
      Nat.lt_succ_self _, rfl⟩
    exact fun pump running => by rw [loop] at running; cases running
  | some pump =>
    have pos := (loop ▸ (h.course valid).standing).current_pos (Schedule.start_eq_ok valid)
    rw [← Pump.schedule_callTimes pump c.outbox.calls] at pos
    obtain ⟨d, next, within, outbox, running, rest, -⟩ :=
      exists_rest g base ceiling transport 5
        (c := { c with
          outbox := { c.outbox with calls := 0 }, loop := some (pump.callTimes c.outbox.calls) })
        rfl pos (Pump.work_le _ _)
    have within := (exists_called _ loop rfl).trans within
    refine ⟨{ d with now := d.now + 1 }, .tail within.steps (.wait d (Nat.le_succ _) ?_), ?_,
      within.deeds⟩
    · rw [running]
      rintro _ ⟨⟩
      exact ⟨congrArg Outbox.calls outbox, within.now ▸ Pump.rests_of_work_eq_zero rest⟩
    · exact within.now ▸ Nat.lt_succ_self _

end Courier

end Concord
