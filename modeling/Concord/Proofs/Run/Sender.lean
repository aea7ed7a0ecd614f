import Concord.Proofs.Retry.Settling
import Concord.Run.Clock
import Concord.Run.Sender

/-!
A sender with one loop on the clock of a run. Whatever it is told to do, its runs are runs of a
courier: it settles by what the loop does at an instant, and a rest leads from one timer to the
next.
-/

namespace Concord

namespace Pump

theorem callOne_singleton (p : Pump) : callOne [p] = [p.call] := by
  unfold callOne wakeOne?
  by_cases waits : p.phase = .waiting
  · rw [if_pos waits]
  · rw [if_neg waits]
    rfl

theorem callOneTimes_singleton (p : Pump) (n : Nat) : callOneTimes [p] n = [p.callTimes n] := by
  induction n generalizing p with
  | zero => rfl
  | succ n ih => rw [callOneTimes, callOne_singleton, ih, callTimes]

variable [Timer]

theorem lt_roundUp_of_work_eq_zero {now due : Instant} {p : Pump} (h : p.work now = 0)
    (set : p.due? = some due) : now < Instant.roundUp due := by
  rcases rests_of_work_eq_zero h with waiting | ⟨_, same, early⟩
  · rw [due?, waiting] at set
    cases set
  · cases same.symm.trans set
    exact early

/-- A loop at rest stays so until its timer goes off. -/
theorem work_eq_zero_of_before {now later : Instant} {p : Pump} (h : p.work now = 0)
    (before : ∀ due, p.due? = some due → later < Instant.roundUp due) : p.work later = 0 := by
  unfold work at h ⊢
  split at h
  · rfl
  · exact if_pos (before _ rfl)
  · cases h
  · split at h <;> cases h
  · split at h <;> cases h

end Pump

namespace Courier

open Note

variable {α : Type} [Mail α] {g : Group} {base ceiling : Span} {transport : Transport}
  {s : Schedule} {c : Courier α}

/-- The sender that a courier is at work for. -/
def sender (g : Group) (base ceiling : Span) (c : Courier α) : Sender α where
  group := g
  basePause := base
  longestPause := ceiling
  outbox := c.outbox
  loops :=
    match c.loop with
    | none => .notStarted
    | some pump => .running [pump]
  sent := c.attempts.map Attempt.sent

omit [Mail α] in
theorem sender_later (c : Courier α) (later : Instant) :
    sender g base ceiling { c with now := later } = sender g base ceiling c := rfl

variable [Timer]

/-- At a reading of the timers' clock, with nothing to do. -/
structure Resting (c : Courier α) : Prop where
  whole : Instant.roundUp c.now = c.now
  done : ∀ pump, c.loop = some pump → c.outbox.calls = 0 ∧ pump.work c.now = 0

theorem Reachable.trans {d : Courier α} (h : Reachable g base ceiling transport c)
    (steps : Relation.ReflTransGen (Step g base ceiling transport) c d) :
    Reachable g base ceiling transport d := by
  induction steps with
  | refl => exact h
  | tail _ step ih => exact ih.next step

theorem exists_settled [Posted α] (valid : Schedule.start base ceiling = .ok s)
    (h : Reachable g base ceiling transport c) (whole : Instant.roundUp c.now = c.now) :
    ∃ d, Within g base ceiling transport c d ∧ d.Resting ∧
      d.sender g base ceiling = (c.sender g base ceiling).settle c.now := by
  cases loop : c.loop with
  | none =>
    refine ⟨c, .refl c, ⟨whole, fun pump running => by rw [loop] at running; cases running⟩, ?_⟩
    rw [sender, loop]
    rfl
  | some pump =>
    have pos := (loop ▸ (h.course valid).standing).current_pos (Schedule.start_eq_ok valid)
    rw [← Pump.schedule_callTimes pump c.outbox.calls] at pos
    obtain ⟨d, next, within, outbox, running, rest, together⟩ :=
      exists_rest g base ceiling transport 6
        (c := { c with
          outbox := { c.outbox with calls := 0 }, loop := some (pump.callTimes c.outbox.calls) })
        rfl pos (Nat.le_succ_of_le (Pump.work_le _ _))
    have within := (exists_called _ loop rfl).trans within
    obtain ⟨same, sent⟩ := together whole
    refine ⟨d, within, ⟨within.now ▸ whole, ?_⟩, ?_⟩
    · rw [running]
      rintro _ ⟨⟩
      exact ⟨congrArg Outbox.calls outbox, within.now ▸ rest⟩
    · rw [sender, running, outbox, sent, ← same]
      rw [sender, loop, Sender.settle]
      simp only [Pump.callOneTimes_singleton, List.map_cons, List.map_nil, List.flatMap_cons,
        List.flatMap_nil, List.append_nil]
      rfl

omit [Mail α] [Timer] in
theorem due?_sender {pump : Pump} (running : c.loop = some pump) :
    (c.sender g base ceiling).due? = pump.due? := by
  rw [sender, running]
  rfl

/-- A courier at rest lets time pass until its timer goes off. -/
theorem Resting.wait (h : c.Resting) {later : Instant} (forward : c.now ≤ later)
    (early : ∀ due, (c.sender g base ceiling).due? = some due → later ≤ Instant.roundUp due) :
    Step g base ceiling transport c { c with now := later } := by
  refine .wait c forward fun pump running => ?_
  obtain ⟨none, rest⟩ := h.done pump running
  refine ⟨none, (Pump.rests_of_work_eq_zero rest).imp_right ?_⟩
  rintro ⟨due, set, -⟩
  exact ⟨due, set, early due ((due?_sender running).trans set)⟩

omit [Mail α] in
theorem Resting.lt_roundUp (h : c.Resting) {due : Instant}
    (set : (c.sender g base ceiling).due? = some due) : c.now < Instant.roundUp due := by
  cases running : c.loop with
  | none =>
    rw [sender, running] at set
    cases set
  | some pump =>
    exact Pump.lt_roundUp_of_work_eq_zero (h.done pump running).2
      ((due?_sender running).symm.trans set)

omit [Mail α] in
theorem Resting.later (h : c.Resting) {limit : Instant} (whole : Instant.roundUp limit = limit)
    (before : ∀ due, (c.sender g base ceiling).due? = some due → limit < Instant.roundUp due) :
    Resting { c with now := limit } where
  whole := whole
  done pump running :=
    ⟨(h.done pump running).1, Pump.work_eq_zero_of_before (h.done pump running).2
      fun due set => before due ((due?_sender running).trans set)⟩

theorem Resting.exists_later (h : c.Resting) {limit : Instant}
    (whole : Instant.roundUp limit = limit) (forward : c.now ≤ limit)
    (before : ∀ due, (c.sender g base ceiling).due? = some due → limit < Instant.roundUp due) :
    ∃ d, Relation.ReflTransGen (Step g base ceiling transport) c d ∧ d.Resting ∧ d.now = limit ∧
      d.sender g base ceiling = c.sender g base ceiling :=
  ⟨{ c with now := limit }, .single (h.wait forward fun t set => Nat.le_of_lt (before t set)),
    h.later whole before, rfl, rfl⟩

/-- Every leap takes some time, so the leaps do not run out before the limit. -/
theorem exists_leapt [Posted α] (valid : Schedule.start base ceiling = .ok s) {limit : Instant}
    (whole : Instant.roundUp limit = limit) (leaps : Nat)
    (h : Reachable g base ceiling transport c) (rest : c.Resting) (forward : c.now ≤ limit)
    (enough : limit < c.now + leaps) :
    ∃ d, Relation.ReflTransGen (Step g base ceiling transport) c d ∧ d.Resting ∧ d.now = limit ∧
      d.sender g base ceiling =
        Clock.leap Sender.due? Sender.settle limit leaps (c.sender g base ceiling) := by
  induction leaps generalizing c with
  | zero => exact absurd forward (Nat.not_le_of_lt enough)
  | succ leaps ih =>
    unfold Clock.leap
    cases timer : (c.sender g base ceiling).due? with
    | none =>
      have never : ∀ due, (c.sender g base ceiling).due? = some due → limit < Instant.roundUp due :=
        fun _ set => by rw [timer] at set; cases set
      exact rest.exists_later whole forward never
    | some due =>
      have early := rest.lt_roundUp timer
      by_cases elapsed : Instant.roundUp due ≤ limit
      · have woken : Step g base ceiling transport c { c with now := Instant.roundUp due } := by
          refine rest.wait (Nat.le_of_lt early) fun t set => ?_
          cases timer.symm.trans set
          exact Nat.le_refl _
        obtain ⟨d, within, resting, settled⟩ :=
          exists_settled valid (.next h woken) (Instant.roundUp_roundUp due)
        have later : c.now < d.now := Nat.lt_of_lt_of_eq early within.now.symm
        have left : limit < d.now + leaps := by
          refine Nat.lt_of_lt_of_le enough ?_
          rw [Nat.add_comm leaps 1, ← Nat.add_assoc]
          exact Nat.add_le_add_right later leaps
        obtain ⟨e, steps, found⟩ :=
          ih ((h.next woken).trans within.steps) resting (within.now ▸ elapsed) left
        refine ⟨e, .head woken (within.steps.trans steps), ?_⟩
        dsimp only
        rw [sender_later c] at settled
        rw [if_pos elapsed, ← settled]
        exact found
      · have never : ∀ t, (c.sender g base ceiling).due? = some t → limit < Instant.roundUp t := by
          intro t set
          cases timer.symm.trans set
          exact Nat.lt_of_not_le elapsed
        dsimp only
        rw [if_neg elapsed]
        exact rest.exists_later whole forward never

theorem exists_rested [Posted α] (valid : Schedule.start base ceiling = .ok s)
    (h : Reachable g base ceiling transport c) (rest : c.Resting) (millis : Nat) :
    ∃ d, Relation.ReflTransGen (Step g base ceiling transport) c d ∧ d.Resting ∧
      d.now = Clock.restEnd c.now millis ∧ d.sender g base ceiling =
        Clock.elapse Sender.due? Sender.settle c.now millis (c.sender g base ceiling) := by
  have forward := Clock.le_restEnd c.now millis
  have enough : Clock.restEnd c.now millis <
      c.now + (Clock.restEnd c.now millis - c.now + 1) := by
    rw [← Nat.add_assoc, Nat.add_sub_of_le forward]
    exact Nat.lt_succ_self _
  exact exists_leapt valid (Instant.roundUp_roundUp _) _ h rest forward enough

end Courier

/-- What a sender is told to do in a run. -/
inductive Order (α : Type) where
  | begin
  | perform (deed : Deed α)
  | rest (millis : Nat)

namespace Sender

variable {α : Type} [Mail α] [Timer]

def obey : Instant × Sender α → Order α → Instant × Sender α
  | (now, s), .begin => (now, s.begin.settle now)
  | (now, s), .perform d => (now, settle now { s with outbox := s.outbox.perform d })
  | (now, s), .rest millis => (Clock.restEnd now millis, Clock.elapse due? settle now millis s)

/-- The loop begins once, and whatever is done to the outbox is allowed when it is done. -/
def Admits (g : Group) : Instant × Sender α → List (Order α) → Prop
  | _, [] => True
  | (now, s), .begin :: later => s.loops = .notStarted ∧ Admits g (obey (now, s) .begin) later
  | (now, s), .perform d :: later =>
    s.outbox.Allows g d ∧ Admits g (obey (now, s) (.perform d)) later
  | (now, s), .rest millis :: later => Admits g (obey (now, s) (.rest millis)) later

end Sender

namespace Courier

variable {α : Type} [Mail α] [Timer] {g : Group} {base ceiling : Span} {transport : Transport}
  {s : Schedule} {c : Courier α}

theorem exists_obeyed [Posted α] (valid : Schedule.start base ceiling = .ok s)
    (orders : List (Order α)) (h : Reachable g base ceiling transport c) (rest : c.Resting)
    (admits : Sender.Admits g (c.now, c.sender g base ceiling) orders) :
    ∃ d, Relation.ReflTransGen (Step g base ceiling transport) c d ∧
      (d.now, d.sender g base ceiling) =
        orders.foldl Sender.obey (c.now, c.sender g base ceiling) := by
  induction orders generalizing c with
  | nil => exact ⟨c, .refl, rfl⟩
  | cons order later ih =>
    obtain ⟨d, steps, resting, obeyed, more⟩ : ∃ d,
        Relation.ReflTransGen (Step g base ceiling transport) c d ∧ d.Resting ∧
        (d.now, d.sender g base ceiling) = Sender.obey (c.now, c.sender g base ceiling) order ∧
        Sender.Admits g (Sender.obey (c.now, c.sender g base ceiling) order) later := by
      cases order with
      | begin =>
        obtain ⟨idle, more⟩ := admits
        have none : c.loop = none := by
          cases running : c.loop with
          | none => rfl
          | some pump =>
            rw [sender, running] at idle
            cases idle
        have started : Pump.start base ceiling = .ok ⟨.ready, s, false⟩ := by
          rw [Pump.start, valid]
          rfl
        have step : Step g base ceiling transport c _ := .begin c none started
        obtain ⟨d, within, resting, settled⟩ := exists_settled valid (h.next step) rest.whole
        refine ⟨d, .head step within.steps, resting, Prod.ext within.now ?_, more⟩
        have begun : (c.sender g base ceiling).begin = sender g base ceiling { c with
            loop := some ⟨.ready, s, false⟩, history := c.history ++ [.begun c.now] } := by
          simp only [sender, Sender.begin, started, none]
        rw [Sender.obey, begun]
        exact settled
      | perform deed =>
        obtain ⟨allowed, more⟩ := admits
        have step : Step g base ceiling transport c _ := .deed c allowed
        obtain ⟨d, within, resting, settled⟩ := exists_settled valid (h.next step) rest.whole
        exact ⟨d, .head step within.steps, resting, Prod.ext within.now settled, more⟩
      | rest millis =>
        obtain ⟨d, steps, resting, now, same⟩ := exists_rested valid h rest millis
        exact ⟨d, steps, resting, Prod.ext now same, admits⟩
    rw [← obeyed] at more
    obtain ⟨e, further, same⟩ := ih (h.trans steps) resting more
    exact ⟨e, steps.trans further, by rw [List.foldl_cons, ← obeyed]; exact same⟩

/-- Every run of a sender on the clock is a run of a courier, whatever the network does. -/
theorem exists_of_orders [Posted α] (valid : Schedule.start base ceiling = .ok s)
    (transport : Transport) (orders : List (Order α))
    (admits : Sender.Admits g (0, .start g base ceiling) orders) :
    ∃ c, Reachable g base ceiling transport c ∧
      (c.now, c.sender g base ceiling) = orders.foldl Sender.obey (0, .start g base ceiling) := by
  have rest : Resting (start : Courier α) := ⟨Instant.roundUp_zero, nofun⟩
  have begun : Reachable g base ceiling transport (start : Courier α) := .start
  obtain ⟨c, steps, same⟩ := exists_obeyed valid orders begun rest admits
  exact ⟨c, begun.trans steps, same⟩

end Courier

end Concord
