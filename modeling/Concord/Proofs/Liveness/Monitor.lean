import Concord.Liveness.Monitor
import Concord.Proofs.Liveness.Watchlist
import Concord.Time.Millis

/-!
A monitor in all its runs. It takes note of every interval that begins and of every heartbeat that
arrives. It reports whom its watchlist reports, and at every interval it sends one heartbeat to each
of the others that has not been reported.
-/

namespace Concord

namespace Ticker

/-- What has gone off before does not go off again. -/
theorem due_skip (t : Ticker) (times : Nat) (now : Instant) :
    (t.skip times).due now = t.due now - times := by
  have left (now next period : Nat) (pos : 0 < period) :
      (if now < next + times * period then 0 else (now - (next + times * period)) / period + 1) =
        (if now < next then 0 else (now - next) / period + 1) - times := by
    by_cases early : now < next
    · rw [if_pos early, if_pos (Nat.lt_of_lt_of_le early (Nat.le_add_right _ _)), Nat.zero_sub]
    · rw [if_neg early]
      by_cases passed : times ≤ (now - next) / period
      · have reached := (Nat.le_div_iff_mul_le pos).mp passed
        rw [if_neg (by omega), ← Nat.sub_sub, Nat.mul_comm times, Nat.sub_mul_div]
        omega
      · have short := (Nat.div_lt_iff_lt_mul pos).mp (Nat.lt_of_not_le passed)
        rw [if_pos (by omega)]
        omega
  exact left now t.next t.period.nanos t.period_pos

end Ticker

namespace Monitor

open Watchlist (Beat silence)

/-- What reaches a monitor from outside, and that it goes through the intervals up to an instant. -/
inductive Stimulus where
  | settle (now : Instant)
  | datagram (source : Address) (bytes : Bytes)

def meet (m : Monitor) : Stimulus → Monitor
  | .settle now => m.settle now
  | .datagram source bytes => m.arrive (.datagram source bytes)

def run (m : Monitor) (stimuli : List Stimulus) : Monitor := stimuli.foldl meet m

/-- The number of intervals that have begun by an instant, the first of them at the start. -/
def begun (start : Instant) (period : Span) (now : Instant) : Nat :=
  if now < start then 0 else (now - start) / period.nanos + 1

/-- Of all datagrams only heartbeats count. -/
def heard (bytes : Bytes) : List Beat :=
  match Signal.decode bytes with
  | .ok (.heartbeat member) => [.heartbeat member]
  | _ => []

/-- What there is to take note of after the first intervals: every further one that has begun by the
instants of a run, and every heartbeat. -/
def beats (start : Instant) (period : Span) (past : Nat) : List Stimulus → List Beat
  | [] => []
  | .settle now :: rest =>
    List.replicate (begun start period now - past) (.tick now) ++
      beats start period (max past (begun start period now)) rest
  | .datagram _ bytes :: rest => heard bytes ++ beats start period past rest

/-- One heartbeat to each of these members. -/
def pulse (g : Group) (now : Instant) (members : List MemberId) : List Sent :=
  Sent.all now ((members.filterMap g.addressOf).map fun a => (a, (Signal.heartbeat g.self).encode))

/-- A heartbeat to everyone else who has not been reported, at every tick. The beats that went before
are listed apart. -/
def pulses (g : Group) (w : Watchlist) (before : List Beat) : List Beat → List Sent
  | [] => []
  | .tick now :: rest =>
    pulse g now ((Roll.ofList g.others).toList.filter (· ∉ w.reports (before ++ [.tick now])))
      ++ pulses g w (before ++ [.tick now]) rest
  | .heartbeat member :: rest => pulses g w (before ++ [.heartbeat member]) rest

theorem pulses_append (g : Group) (w : Watchlist) (before beats more : List Beat) :
    pulses g w before (beats ++ more) =
      pulses g w before beats ++ pulses g w (before ++ beats) more := by
  induction beats generalizing before with
  | nil => rw [List.nil_append, List.append_nil, pulses, List.nil_append]
  | cons b rest ih =>
    cases b with
    | tick now =>
      rw [List.cons_append, pulses, pulses, ih, List.append_assoc, List.append_assoc]
      rfl
    | heartbeat member =>
      rw [List.cons_append, pulses, pulses, ih, List.append_assoc]
      rfl

/-- Where a monitor stands that has gone through some intervals and beats. It runs. -/
structure Heeds (g : Group) (w : Watchlist) (first : Ticker) (past : Nat) (beats : List Beat)
    (m : Monitor) : Prop where
  group : m.group = g
  failed : m.failed = w.reports beats
  sent : m.sent = pulses g w [] beats
  stage : m.stage = .running ⟨w.run beats, first.skip past⟩

variable {g : Group} {tolerance : UInt32} {past : List Beat} {m : Monitor}

/-- A monitor that can be started is, with a period as long as a timer waits. -/
theorem heeds_start [Timer] {settings : Settings} {now : Instant} {e : Engine}
    (ok : startEngine settings g now = .ok e) :
    Heeds g (.start g.others settings.toleratedMisses) e.ticker 0 [] (start settings g now) ∧
      e.ticker.next = now ∧ e.ticker.period = Timer.wait settings.heartbeatInterval := by
  have set := ok
  unfold startEngine at set
  split at set
  · cases set
  · split at set
    · cases set
    · rename_i ticker goes
      cases set
      unfold Ticker.start? at goes
      split at goes <;> cases goes
      rw [start, ok]
      refine ⟨⟨rfl, rfl, rfl, ?_⟩, rfl, rfl⟩
      rw [Ticker.skip, Nat.zero_mul, Nat.add_zero]
      rfl

/-- One interval: those that fail now are not sent a heartbeat any more. -/
theorem tick_eq {w : Watchlist} (hw : w = .start g.others tolerance) (group : m.group = g)
    (now : Instant) : m.tick now (w.run past) =
      ({ m with
        failed := m.failed ++ (w.run past).verdict (.tick now)
        sent := m.sent ++ pulses g w past [.tick now] }, w.run (past ++ [.tick now])) := by
  have live : (w.run (past ++ [.tick now])).live =
      (Roll.ofList g.others).toList.filter (· ∉ w.reports (past ++ [.tick now])) := by
    rw [hw]
    exact (Watchlist.tracks_run g.others tolerance (past ++ [.tick now])).watched
  have heartbeats : Sent.all now (m.heartbeats (w.run (past ++ [.tick now])).live) =
      pulses g w past [.tick now] := by
    rw [live, pulses, pulses, List.append_nil, heartbeats, group]
    rfl
  rw [← heartbeats, Watchlist.run_concat]
  rfl

theorem ticks_eq {w : Watchlist} (hw : w = .start g.others tolerance) (group : m.group = g)
    (now : Instant) (n : Nat) : m.ticks now n (w.run past) =
      ({ m with
        failed := m.failed ++ (w.run past).reports (List.replicate n (.tick now))
        sent := m.sent ++ pulses g w past (List.replicate n (.tick now)) },
        w.run (past ++ List.replicate n (.tick now))) := by
  induction n generalizing m past with
  | zero => simp [ticks, Watchlist.reports, pulses]
  | succ n ih =>
    have beats : past ++ List.replicate (n + 1) (.tick now) =
        past ++ [.tick now] ++ List.replicate n (.tick now) := by
      rw [List.replicate_succ, List.append_assoc, List.singleton_append]
    rw [ticks, tick_eq hw group]
    refine (ih (by exact group)).trans ?_
    rw [← beats, Watchlist.run_concat, List.append_assoc, List.append_assoc,
      ← pulses_append, List.singleton_append, ← List.replicate_succ]
    rfl

/-- Nothing reaches a monitor that has not started. -/
theorem run_broken {m : Monitor} (broken : m.stage = .over .broken) (stimuli : List Stimulus) :
    m.run stimuli = m := by
  induction stimuli with
  | nil => rfl
  | cons s rest ih =>
    have still : m.meet s = m := by
      cases s <;> simp only [meet, settle, arrive, broken]
    rw [run, List.foldl_cons, still]
    exact ih

namespace Heeds

variable {w : Watchlist} {first : Ticker} {times : Nat}

/-- All intervals that have begun and were not gone through are gone through. -/
theorem settle (h : Heeds g w first times past m) (hw : w = .start g.others tolerance)
    (now : Instant) :
    Heeds g w first (max times (first.due now))
      (past ++ List.replicate (first.due now - times) (.tick now)) (m.settle now) := by
  have settled : m.settle now = { (m.ticks now (first.due now - times) (w.run past)).1 with
      stage := .running ⟨(m.ticks now (first.due now - times) (w.run past)).2,
        first.skip (max times (first.due now))⟩ } := by
    have onward : times + (first.due now - times) = max times (first.due now) := by omega
    rw [Monitor.settle, h.stage, ← onward, ← Ticker.skip_skip, ← Ticker.due_skip]
  rw [settled, ticks_eq hw h.group]
  refine ⟨h.group, ?_, ?_, rfl⟩
  · rw [Watchlist.reports_append, ← h.failed]
  · rw [pulses_append, ← h.sent]
    rfl

/-- A heartbeat is noted, and reports and sends nothing. -/
theorem heartbeat (h : Heeds g w first times past m) (member : MemberId) :
    Heeds g w first times (past ++ [.heartbeat member])
      { m with stage := .running ⟨(w.run past).hear member, first.skip times⟩ } := by
  refine ⟨h.group, ?_, ?_, ?_⟩
  · rw [Watchlist.reports_concat, Watchlist.verdict, List.append_nil]
    exact h.failed
  · rw [pulses_append, pulses, pulses, List.append_nil]
    exact h.sent
  · rw [Watchlist.run_concat]
    rfl

theorem datagram (h : Heeds g w first times past m) (source : Address) (bytes : Bytes) :
    Heeds g w first times (past ++ heard bytes) (m.arrive (.datagram source bytes)) := by
  have still : Heeds g w first times (past ++ []) m := by
    rw [List.append_nil]
    exact h
  unfold heard
  simp only [arrive, hear, h.stage]
  cases Signal.decode bytes with
  | error e => exact still
  | ok signal =>
    cases signal with
    | heartbeat member => exact h.heartbeat member
    | alive _ | aliveAnswer _ => exact still

theorem run (h : Heeds g w first times past m) (hw : w = .start g.others tolerance)
    (stimuli : List Stimulus) : ∃ times', Heeds g w first times'
      (past ++ beats first.next first.period times stimuli) (m.run stimuli) := by
  induction stimuli generalizing m past times with
  | nil =>
    rw [beats, List.append_nil]
    exact ⟨times, h⟩
  | cons s rest ih =>
    cases s with
    | settle now =>
      rw [beats, ← List.append_assoc]
      exact ih (h.settle hw now)
    | datagram source bytes =>
      rw [beats, ← List.append_assoc]
      exact ih (h.datagram source bytes)

end Heeds

/-- A tick reports a member if it is watched, was not reported before, and as many ticks have passed
since its last heartbeat as it may miss. A monitor that can be started runs on whatever arrives, and
goes through every interval and every heartbeat: it calls exactly those members failed, and at every
tick it sends one heartbeat to each of the others that has not been reported by then. -/
theorem detection_exact [Timer] (members : List MemberId) (tolerance : UInt32) (beats : List Beat)
    (settings : Settings) (g : Group) (now : Instant) (stimuli : List Stimulus) :
    let w := Watchlist.start members tolerance
    let v := w.run beats
    let watched := Watchlist.start g.others settings.toleratedMisses
    let noted := Monitor.beats now (Timer.wait settings.heartbeatInterval) 0 stimuli
    let m := start settings g now
    (∀ p, p ∈ v.tick.2 ↔
      p ∈ members ∧ p ∉ w.reports beats ∧ silence p beats = tolerance.toNat) ∧
    v.tick.2.Pairwise (fun p q => p.rank < q.rank) ∧
    (w.reports beats).Nodup ∧
    (∀ p, p ∉ members ∨ p ∈ w.reports beats → v.hear p = v) ∧
    v.live = (Roll.ofList members).toList.filter (· ∉ w.reports beats) ∧
    (∀ p n, v.left.get? p = some n → n.toNat + silence p beats = tolerance.toNat) ∧
    (∀ p n, v.tick.1.left.get? p = some n →
      ∃ before, v.left.get? p = some before ∧ before.toNat = n.toNat + 1) ∧
    (∀ e, startEngine settings g now = .ok e →
      (∃ later, (m.run stimuli).stage = .running later ∧ later.watchlist = watched.run noted) ∧
      (m.run stimuli).failed = watched.reports noted ∧
      (m.run stimuli).sent = pulses g watched [] noted) ∧
    (∀ fault, startEngine settings g now = .error fault →
      (m.run stimuli).stage = .over .broken ∧ (m.run stimuli).failed = [] ∧
      (m.run stimuli).sent = []) ∧
    ∀ p ∈ g.others, ∃ a, g.addressOf p = some a := by
  intro w v watched noted m
  have tracks := Watchlist.tracks_run members tolerance beats
  refine ⟨fun p => tracks.mem_tick_iff, tracks.ascending_tick.imp UInt32.lt_iff_toNat_lt.mpr,
    tracks.distinct, fun p outside => Watchlist.hear_eq_self ?_, tracks.watched, tracks.left,
    fun p n => Watchlist.get?_tick.mp, fun e ok => ?_, fun fault broken => ?_, fun p other => ?_⟩
  · rw [tracks.mem_keys_iff]
    exact fun inside => outside.elim (fun stranger => stranger inside.1) inside.2
  · obtain ⟨starts, next, period⟩ := heeds_start ok
    obtain ⟨times, heeds⟩ := starts.run rfl stimuli
    rw [next, period] at heeds
    exact ⟨⟨_, heeds.stage, rfl⟩, heeds.failed, heeds.sent⟩
  · have stopped : m = ⟨g, .over .broken, [], []⟩ := by
      simp only [m, start, broken]
    rw [stopped, run_broken rfl]
    exact ⟨rfl, rfl, rfl⟩
  · exact Group.exists_addressOf (List.mem_filter.mp other).1

/-- The second member is heard once after the first tick, so it fails a tick later than the third. -/
theorem detection_exact_of_one_heartbeat :
    let g : Group := ⟨⟨1⟩, Group.onLoopback 3⟩
    let second : Instant := 1000000000
    let stimuli := [.settle 0, .datagram (.loopback 2) (Signal.heartbeat ⟨2⟩).encode,
      .settle second, .settle (2 * second), .settle (3 * second)]
    let m := start .standard g 0
    (∃ e, startEngine .standard g 0 = .ok e) ∧
      beats 0 (Timer.wait Settings.standard.heartbeatInterval) 0 stimuli =
        [.tick 0, .heartbeat ⟨2⟩, .tick second, .tick (2 * second), .tick (3 * second)] ∧
      (∃ e, (m.run stimuli).stage = .running e) ∧ (m.run stimuli).failed = [⟨3⟩, ⟨2⟩] ∧
      (m.run stimuli).sent.map (fun s => (s.time, s.target)) =
        [(0, .loopback 2), (0, .loopback 3), (second, .loopback 2), (second, .loopback 3),
          (2 * second, .loopback 2)] := by
  intro g second stimuli m
  obtain ⟨e, started⟩ : ∃ e, startEngine .standard g 0 = .ok e := ⟨_, rfl⟩
  obtain ⟨-, -, -, -, -, -, -, runs, -, -⟩ :=
    detection_exact g.others 2 [] .standard g 0 stimuli
  obtain ⟨⟨later, running, -⟩, failed, sent⟩ := runs e started
  refine ⟨⟨e, started⟩, by decide +kernel, ⟨later, running⟩, ?_, ?_⟩
  · rw [failed]
    decide +kernel
  · rw [sent]
    decide +kernel

end Monitor

end Concord
