import Concord.CommandLine.Launch
import Concord.Liveness.Monitor
import Concord.Proofs.Group.Ranks
import Concord.Rendezvous.Barrier
import Concord.Run.LiveNode
import Concord.Time.Millis

/-!
What the check of the settings secures at the start of a member, and what it leaves open. It secures
that the pauses make a schedule and that there is room for records. It says nothing of timers
without a period, nor of more room than there can be, and these are what can still break a part. No
command line asks for either.
-/

namespace Concord

/-- What is refused on a condition is accepted without it. -/
theorem refuse_eq_ok_iff {ε α : Type} {c : Prop} [Decidable c] {e : ε} {rest : Except ε α} {a : α} :
    (if c then .error e else rest) = .ok a ↔ ¬ c ∧ rest = .ok a := by
  split <;> simp [*]

theorem Settings.check_eq_ok_iff {s : Settings} :
    s.check = .ok () ↔ isProbability s.dropRate = true ∧ isProbability s.delayProbability = true ∧
      0 < s.basePause.nanos ∧ s.basePause.nanos ≤ s.longestPause.nanos ∧ 0 < s.recordRoom := by
  have pos (n : Nat) : ¬ n = 0 ↔ 0 < n := by omega
  simp only [check, refuse_eq_ok_iff, Bool.not_eq_true', Bool.not_eq_false, Span.isZero,
    decide_eq_true_eq, pos, Nat.not_lt, and_true]

theorem Settings.check_standard : Settings.standard.check = .ok () := rfl

/-- No period matters to the check, and of the room only that there is some. -/
theorem Settings.check_of_check {s : Settings} (accepted : s.check = .ok ())
    (heartbeat probe : Span) {room : Nat} (pos : 0 < room) :
    { s with heartbeatInterval := heartbeat, probeInterval := probe, recordRoom := room }.check =
      .ok () := by
  obtain ⟨dropRate, delayProbability, base, ceiling, -⟩ := check_eq_ok_iff.mp accepted
  exact check_eq_ok_iff.mpr ⟨dropRate, delayProbability, base, ceiling, pos⟩

theorem checkRoom_eq {room : Nat} (pos : 0 < room) :
    checkRoom room = if greatestRoom < room then .error .tooMuchRoom else .ok () :=
  if_neg (by omega)

theorem Ticker.start?_eq_none_iff [Timer] (now : Instant) {period : Span} :
    start? now period = none ↔ period.nanos = 0 := by
  unfold start?
  split <;> simp <;> omega

theorem Pump.exists_start {base ceiling : Span} (pos : 0 < base.nanos)
    (le : base.nanos ≤ ceiling.nanos) : ∃ pump, start base ceiling = .ok pump := by
  rw [start, Schedule.start, dif_pos pos, dif_pos le]
  exact ⟨_, rfl⟩

/-- Every part of a member is up: its node with both outboxes, its monitor, and its barrier. -/
structure Settings.Starts [Timer] (s : Settings) (g : Group) (draws : Draws) (now : Instant) :
    Prop where
  node : ∃ l e, LiveNode.start s g draws = .ok l ∧ l.stage = .running e
  monitor : ∃ e, (Monitor.start s g now).stage = .running e
  barrier : (Barrier.start g s.probeInterval now).gate ≠ .broken

/-- What is left to ask for once the settings are checked. -/
structure Settings.Startable (s : Settings) : Prop where
  room : s.recordRoom ≤ greatestRoom
  heartbeat : 0 < s.heartbeatInterval.nanos
  probe : 0 < s.probeInterval.nanos

variable {s : Settings} {g : Group} {now : Instant}

namespace LiveNode

theorem startEngine_eq_error_iff (accepted : s.check = .ok ()) {fault : StartFault} :
    startEngine s = .error fault ↔ fault = .tooMuchRoom ∧ greatestRoom < s.recordRoom := by
  obtain ⟨-, -, base, ceiling, pos⟩ := Settings.check_eq_ok_iff.mp accepted
  obtain ⟨pump, started⟩ := Pump.exists_start base ceiling
  rw [startEngine, checkRoom_eq pos, started]
  by_cases tooMuch : greatestRoom < s.recordRoom
  · simp [tooMuch, eq_comm]
  · simp [tooMuch]

/-- The node runs unless its engine cannot start. -/
theorem start_running_iff (accepted : s.check = .ok ()) (member : g.contains g.self = true)
    {draws : Draws} :
    (∃ l e, start s g draws = .ok l ∧ l.stage = .running e) ↔
      ∀ fault, startEngine s ≠ .error fault := by
  obtain ⟨n, node⟩ : ∃ n, Node.start s g = .ok n := by
    rw [Node.start, accepted]
    exact ⟨_, if_pos member⟩
  rw [start, node]
  cases startEngine s <;> simp

end LiveNode

namespace Monitor

variable [Timer]

theorem startEngine_eq_error_iff (accepted : s.check = .ok ()) {fault : StartFault} :
    startEngine s g now = .error fault ↔
      fault = .tooMuchRoom ∧ greatestRoom < s.recordRoom ∨
      fault = .zeroPeriod ∧ s.recordRoom ≤ greatestRoom ∧ s.heartbeatInterval.nanos = 0 := by
  obtain ⟨-, -, -, -, pos⟩ := Settings.check_eq_ok_iff.mp accepted
  rw [startEngine, checkRoom_eq pos]
  by_cases tooMuch : greatestRoom < s.recordRoom
  · simp [tooMuch, Nat.not_le.mpr tooMuch, eq_comm]
  · cases timer : Ticker.start? now s.heartbeatInterval with
    | none =>
      have still := (Ticker.start?_eq_none_iff now).mp timer
      simp [tooMuch, still, Nat.not_lt.mp tooMuch, eq_comm]
    | some ticker =>
      have goes : ¬ s.heartbeatInterval.nanos = 0 := by
        rw [← Ticker.start?_eq_none_iff now, timer]
        exact Option.some_ne_none ticker
      simp [tooMuch, goes]

/-- The monitor runs unless its engine cannot start. -/
theorem start_running_iff :
    (∃ e, (start s g now).stage = .running e) ↔ ∀ fault, startEngine s g now ≠ .error fault := by
  rw [start]
  cases startEngine s g now <;> simp

end Monitor

namespace Barrier

variable [Timer]

theorem start_broken_iff {interval : Span} :
    (start g interval now).gate = .broken ↔ interval.nanos = 0 := by
  rw [← Ticker.start?_eq_none_iff now, start]
  cases Ticker.start? now interval with
  | none => simp [reconsider]
  | some ticker =>
    simp only [reconsider, reduceCtorEq, iff_false]
    split <;> exact nofun

end Barrier

namespace CommandLine

/-- No option asks for a timer without a period, or for more room than there is. -/
theorem Options.startable (o : Options) : o.settings.Startable := by
  have room : 1024 ≤ greatestRoom := by decide
  have period : 0 < (Span.ofSeconds 1).nanos := by decide
  exact ⟨room, period, period⟩

theorem of_launch {around : Surroundings} {o : Options} (joins : launch around o = .ok g) :
    o.settings.check = .ok () ∧ g.contains g.self = true := by
  unfold launch at joins
  split at joins
  · cases joins
  · dsimp only at joins
    split at joins
    · cases joins
    · cases joins
    · rename_i accepted _
      split at joins
      · cases joins
      · rename_i resolved
        cases joins
        exact ⟨accepted, Group.contains_self_of_resolve resolved⟩

end CommandLine

namespace Settings

theorem starts_iff [Timer] (accepted : s.check = .ok ()) (member : g.contains g.self = true)
    {draws : Draws} : s.Starts g draws now ↔ s.Startable := by
  constructor
  · rintro ⟨node, monitor, barrier⟩
    rw [LiveNode.start_running_iff accepted member] at node
    rw [Monitor.start_running_iff] at monitor
    have room : s.recordRoom ≤ greatestRoom := Nat.le_of_not_lt fun tooMuch =>
      node _ ((LiveNode.startEngine_eq_error_iff accepted).mpr ⟨rfl, tooMuch⟩)
    refine ⟨room, Nat.pos_of_ne_zero fun still => ?_, Nat.pos_of_ne_zero fun still => ?_⟩
    · exact monitor _ ((Monitor.startEngine_eq_error_iff accepted).mpr (.inr ⟨rfl, room, still⟩))
    · exact barrier (Barrier.start_broken_iff.mpr still)
  · rintro ⟨room, heartbeat, probe⟩
    refine ⟨(LiveNode.start_running_iff accepted member).mpr fun fault broken => ?_,
      Monitor.start_running_iff.mpr fun fault broken => ?_, fun broken => ?_⟩
    · have := ((LiveNode.startEngine_eq_error_iff accepted).mp broken).2
      omega
    · have := (Monitor.startEngine_eq_error_iff accepted).mp broken
      omega
    · have := Barrier.start_broken_iff.mp broken
      omega

/-- Once the settings are checked, the pauses of both outboxes make a schedule, and only three
things can still break a part at its start: more room than there is breaks the node and the monitor,
a heartbeat without a period the monitor, and a probe without a period the barrier. Whatever the
command line, a member that joins its group starts whole. -/
theorem starts_if_startable [Timer] (accepted : s.check = .ok ()) (member : g.contains g.self = true)
    (draws : Draws) (now : Instant) :
    (∃ pump, Pump.start s.basePause s.longestPause = .ok pump) ∧
    (∀ fault, LiveNode.startEngine s = .error fault ↔
      fault = .tooMuchRoom ∧ greatestRoom < s.recordRoom) ∧
    (∀ fault, Monitor.startEngine s g now = .error fault ↔
      fault = .tooMuchRoom ∧ greatestRoom < s.recordRoom ∨
      fault = .zeroPeriod ∧ s.recordRoom ≤ greatestRoom ∧ s.heartbeatInterval.nanos = 0) ∧
    ((Barrier.start g s.probeInterval now).gate = .broken ↔ s.probeInterval.nanos = 0) ∧
    (s.Starts g draws now ↔ s.Startable) ∧
    ∀ around o k, CommandLine.launch around o = .ok k → o.settings.Starts k draws now := by
  obtain ⟨-, -, base, ceiling, -⟩ := check_eq_ok_iff.mp accepted
  refine ⟨Pump.exists_start base ceiling, fun _ => LiveNode.startEngine_eq_error_iff accepted,
    fun _ => Monitor.startEngine_eq_error_iff accepted, Barrier.start_broken_iff,
    starts_iff accepted member, fun around o k joins => ?_⟩
  obtain ⟨checked, inside⟩ := CommandLine.of_launch joins
  exact (starts_iff checked inside).mpr o.startable

/-- The shortest periods and as much room as there is. -/
theorem starts_if_startable_at_the_bounds :
    let s : Settings := { Settings.standard with
      heartbeatInterval := .ofNanos 1, probeInterval := .ofNanos 1, recordRoom := greatestRoom }
    let g : Group := ⟨⟨2⟩, Group.onLoopback 3⟩
    s.check = .ok () ∧ g.contains g.self = true ∧ s.Starts g (.ofList []) 0 := by
  intro s g
  have accepted : s.check = .ok () := check_of_check check_standard _ _ (by decide)
  have member : g.contains g.self = true := by decide
  obtain ⟨-, -, -, -, starts, -⟩ := starts_if_startable accepted member (.ofList []) 0
  exact ⟨accepted, member, starts.mpr ⟨by decide, by decide, by decide⟩⟩

/-- Settings that pass the check and still break a part at its start. -/
theorem accepted_yet_broken :
    let g : Group := ⟨⟨1⟩, Group.onLoopback 2⟩
    let silent : Settings := { Settings.standard with heartbeatInterval := .zero }
    let hasty : Settings := { Settings.standard with probeInterval := .zero }
    let roomy : Settings := { Settings.standard with recordRoom := greatestRoom + 1 }
    (silent.check = .ok () ∧ (Monitor.start silent g 0).stage = .over .broken) ∧
    (hasty.check = .ok () ∧ (Barrier.start g hasty.probeInterval 0).gate = .broken) ∧
    (roomy.check = .ok () ∧ (Monitor.start roomy g 0).stage = .over .broken ∧
      ∃ l, LiveNode.start roomy g (.ofList []) = .ok l ∧ l.stage = .over .broken) := by
  intro g silent hasty roomy
  have silentChecked : silent.check = .ok () := check_of_check check_standard _ _ (by decide)
  have hastyChecked : hasty.check = .ok () := check_of_check check_standard _ _ (by decide)
  have roomyChecked : roomy.check = .ok () := check_of_check check_standard _ _ (by decide)
  refine ⟨⟨silentChecked, rfl⟩, ⟨hastyChecked, rfl⟩, roomyChecked, rfl, ?_⟩
  rw [LiveNode.start, Node.start, roomyChecked]
  exact ⟨_, rfl, rfl⟩

end Settings

end Concord
