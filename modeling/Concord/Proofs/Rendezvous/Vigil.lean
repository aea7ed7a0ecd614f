import Concord.Proofs.Rendezvous.Barrier
import Concord.Time.Millis

/-!
The two tasks of a barrier, in pieces as small as what they share allows. The responder handles
signals, and leaves word when it has learned something new. The other task looks at what is known,
and then waits for word or for a tick. The responder may learn more or end at any time in between,
and where there is word and a tick is due, either may be taken first.
-/

namespace Concord

theorem Ticker.le_of_lt_due {t : Ticker} {now : Instant} {k : Nat} (less : k < t.due now) :
    t.next + k * t.period.nanos ≤ now := by
  unfold due at less
  split at less
  · cases less
  · rename_i begun
    have within := (Nat.le_div_iff_mul_le t.period_pos).mp (Nat.le_of_lt_succ less)
    exact Nat.add_le_of_le_sub' (Nat.not_lt.mp begun) within

instance : DecidableEq Probe := fun p q =>
  if h : p.answeredBy = q.answeredBy ∧ p.heardFrom = q.heardFrom then
    isTrue (by cases p; cases q; cases h.1; cases h.2; rfl)
  else isFalse fun same => h ⟨congrArg Probe.answeredBy same, congrArg Probe.heardFrom same⟩

/-- Where the waiting task is. -/
inductive Vigil.Phase where
  /-- About to look at what is known. -/
  | looking
  | listening
  /-- Sends a round of probes. -/
  | probing (left : List (Address × Bytes))
  | passed
  | failed

/-- `word` tells that something new has been learned since the last look. -/
structure Vigil where
  group : Group
  phase : Vigil.Phase
  ticker : Ticker
  probe : Probe
  word : Bool
  responder : Stage Unit
  sent : List Sent

namespace Vigil

def start (g : Group) (ticker : Ticker) : Vigil :=
  ⟨g, .looking, ticker, .none, false, .running (), []⟩

/-- The responder handles a datagram. -/
def hear (now : Instant) (source : Address) (bytes : Bytes) (v : Vigil) : Vigil :=
  match Signal.read? bytes with
  | none => v
  | some s =>
    let (probe, answer) := v.probe.hear v.group source s
    { v with
      probe
      word := v.word || decide (probe ≠ v.probe)
      sent := v.sent ++ Sent.all now answer.toList }

/-- The waiting task takes a tick. -/
def tick (v : Vigil) : Vigil :=
  { v with phase := .probing (v.probe.round v.group), ticker := v.ticker.skip 1 }

/-- What the waiting task does next by itself. While it listens it notices the end of the responder
only if there is no word. -/
def turn? (now : Instant) (v : Vigil) : Option Vigil :=
  match v.phase with
  | .looking =>
    let phase := if v.probe.complete v.group.others then Phase.passed else .listening
    some { v with phase, word := false }
  | .listening =>
    if v.word then some { v with phase := .looking, word := false }
    else
      match v.responder with
      | .over _ => some { v with phase := .failed }
      | _ => none
  | .probing [] => some { v with phase := .looking }
  | .probing ((target, bytes) :: left) =>
    some { v with phase := .probing left, sent := v.sent ++ [⟨now, target, bytes⟩] }
  | .passed | .failed => none

def turns (now : Instant) : Nat → Vigil → Vigil
  | 0, v => v
  | n + 1, v =>
    match v.turn? now with
    | none => v
    | some w => w.turns now n

/-- All that can happen, with the signals that have been handled. -/
inductive Reachable [Timer] (g : Group) (interval : Span) : List Signal → Vigil → Prop where
  | start {now ticker} (set : Ticker.start? now interval = some ticker) :
      Reachable g interval [] (.start g ticker)
  | hear {past v} (h : Reachable g interval past v) (responding : v.responder = .running ())
      (now source bytes) :
      Reachable g interval (past ++ (Signal.read? bytes).toList) (v.hear now source bytes)
  | stop {past v} (h : Reachable g interval past v) (responding : v.responder = .running ())
      (outcome) : Reachable g interval past { v with responder := .over outcome }
  | tick {past v} (h : Reachable g interval past v) (listening : v.phase = .listening) {now}
      (due : v.ticker.next ≤ now) : Reachable g interval past v.tick
  | turn {past v w} (h : Reachable g interval past v) {now} (moved : v.turn? now = some w) :
      Reachable g interval past w

/-- What a vigil has come to after some signals. -/
structure Keeps (g : Group) (past : List Signal) (v : Vigil) : Prop where
  group : v.group = g
  probe : v.probe.Reflects g past
  responder : v.responder = .running () ∨ ∃ outcome, v.responder = .over outcome
  listening : v.phase = .listening → v.word = false → ¬ g.Ready past
  passed : v.phase = .passed → g.Ready past
  failed : v.phase = .failed → v.responder ≠ .running () ∧ ¬ g.Ready past

variable {g : Group} {interval : Span} {past : List Signal} {v w : Vigil}

theorem hear_eq {bytes : Bytes} {s : Signal} (read : Signal.read? bytes = some s) (now : Instant)
    (source : Address) (v : Vigil) : v.hear now source bytes =
      { v with
        probe := (v.probe.hear v.group source s).1
        word := v.word || decide ((v.probe.hear v.group source s).1 ≠ v.probe)
        sent := v.sent ++ Sent.all now (v.probe.hear v.group source s).2.toList } := by
  simp only [hear, read]

namespace Keeps

/-- Without word there is nothing new. -/
theorem hear (h : Keeps g past v) (responding : v.responder = .running ()) (now : Instant)
    (source : Address) (bytes : Bytes) :
    Keeps g (past ++ (Signal.read? bytes).toList) (v.hear now source bytes) := by
  cases read : Signal.read? bytes with
  | none => simpa [Vigil.hear, read] using h
  | some s =>
    rw [hear_eq read]
    have probe := h.probe.hear source s
    have group := h.group
    subst group
    refine ⟨rfl, probe, h.responder, fun listening nothing => ?_,
      fun passed => Barrier.ready_concat (h.passed passed) _,
      fun failed => absurd responding (h.failed failed).1⟩
    obtain ⟨silent, same⟩ := Bool.or_eq_false_iff.mp nothing
    have same : (v.probe.hear v.group source s).1 = v.probe := by simpa using same
    rw [same] at probe
    rw [Option.toList_some, ← probe.complete_iff, h.probe.complete_iff]
    exact h.listening listening silent

theorem turn (h : Keeps g past v) {now : Instant} (moved : v.turn? now = some w) :
    Keeps g past w := by
  obtain ⟨rfl, probe, responder, listening, -, -⟩ := h
  unfold turn? at moved
  split at moved
  · cases moved
    have complete := probe.complete_iff
    split
    · rename_i ready
      exact ⟨rfl, probe, responder, nofun, fun _ => complete.mp ready, nofun⟩
    · rename_i unready
      exact ⟨rfl, probe, responder, fun _ _ => mt complete.mpr unready, nofun, nofun⟩
  · rename_i here
    split at moved
    · cases moved
      exact ⟨rfl, probe, responder, nofun, nofun, nofun⟩
    · rename_i silent
      split at moved
      · rename_i halted
        cases moved
        exact ⟨rfl, probe, responder, nofun, nofun,
          fun _ => ⟨by simp [halted], listening here (Bool.eq_false_iff.mpr silent)⟩⟩
      · cases moved
  · cases moved
    exact ⟨rfl, probe, responder, nofun, nofun, nofun⟩
  · cases moved
    exact ⟨rfl, probe, responder, nofun, nofun, nofun⟩
  · cases moved
  · cases moved

end Keeps

theorem Reachable.keeps [Timer] (h : Reachable g interval past v) : Keeps g past v := by
  induction h with
  | start => exact ⟨rfl, Probe.reflects_none g, .inl rfl, nofun, nofun, nofun⟩
  | hear _ responding now source bytes ih => exact ih.hear responding now source bytes
  | stop _ responding outcome ih =>
    exact ⟨ih.group, ih.probe, .inr ⟨outcome, rfl⟩, ih.listening, ih.passed,
      fun failed => absurd responding (ih.failed failed).1⟩
  | tick _ _ _ ih => exact ⟨ih.group, ih.probe, ih.responder, nofun, nofun, nofun⟩
  | turn _ moved ih => exact ih.turn moved

theorem turns_succ {now : Instant} (moved : v.turn? now = some w) (n : Nat) :
    v.turns now (n + 1) = w.turns now n := by
  rw [turns, moved]

theorem Reachable.turns [Timer] (h : Reachable g interval past v) (now : Instant) (n : Nat) :
    Reachable g interval past (v.turns now n) := by
  induction n generalizing v with
  | zero => exact h
  | succ n ih =>
    unfold Vigil.turns
    split
    · exact h
    · exact ih (.turn h ‹_›)

/-- A round is sent to its end, one datagram after the other. -/
theorem turns_probing (now : Instant) {round : List (Address × Bytes)}
    (probing : v.phase = .probing round) (n : Nat) : v.turns now (round.length + n) =
      turns now n { v with phase := .probing [], sent := v.sent ++ Sent.all now round } := by
  induction round generalizing v with
  | nil =>
    obtain ⟨group, phase, ticker, probe, word, responder, sent⟩ := v
    cases probing
    rw [List.length_nil, Nat.zero_add, Sent.all, List.map_nil, List.append_nil]
  | cons d left ih =>
    obtain ⟨target, bytes⟩ := d
    have moved : v.turn? now =
        some { v with phase := .probing left, sent := v.sent ++ [⟨now, target, bytes⟩] } := by
      simp only [turn?, probing]
    rw [List.length_cons, Nat.add_right_comm, turns_succ moved, ih rfl]
    simp [Sent.all]

/-- The waiting task need not wait, neither for word nor for a tick. -/
def Busy (v : Vigil) : Prop :=
  v.phase = .looking ∨ v.phase = .listening ∧ v.word = true ∨ ∃ round, v.phase = .probing round

/-- A busy task comes to look by itself. -/
theorem exists_looking (now : Instant) (busy : v.Busy) :
    ∃ (n : Nat) (w : Vigil), (∀ m, v.turns now (n + m) = w.turns now m) ∧ w.phase = .looking ∧
      w.probe = v.probe ∧ w.group = v.group ∧ w.responder = v.responder := by
  rcases busy with looking | ⟨listening, word⟩ | ⟨round, probing⟩
  · exact ⟨0, v, fun m => by rw [Nat.zero_add], looking, rfl, rfl, rfl⟩
  · have moved : v.turn? now = some { v with phase := .looking, word := false } := by
      simp [turn?, listening, word]
    exact ⟨1, { v with phase := .looking, word := false },
      fun m => by rw [Nat.add_comm, turns_succ moved], rfl, rfl, rfl, rfl⟩
  · refine ⟨round.length + 1, { v with phase := .looking, sent := v.sent ++ Sent.all now round },
      fun m => ?_, rfl, rfl, rfl, rfl⟩
    rw [Nat.add_assoc, turns_probing now probing, Nat.add_comm 1]
    rfl

namespace Keeps

theorem exists_passed (h : Keeps g past v) (ready : g.Ready past) (now : Instant) :
    ∃ n, (v.turns now n).phase = .passed := by
  have comes (busy : v.Busy) : ∃ n, (v.turns now n).phase = .passed := by
    obtain ⟨n, w, onward, looking, probe, group, -⟩ := exists_looking now busy
    have complete : w.probe.complete w.group.others = true := by
      rw [probe, group, h.group]
      exact h.probe.complete_iff.mpr ready
    refine ⟨n + 1, ?_⟩
    rw [onward]
    simp [turns, turn?, looking, complete]
  cases here : v.phase with
  | looking => exact comes (.inl here)
  | listening =>
    have word := (Bool.not_eq_false _).mp fun silent => h.listening here silent ready
    exact comes (.inr (.inl ⟨here, word⟩))
  | probing round => exact comes (.inr (.inr ⟨round, here⟩))
  | passed => exact ⟨0, here⟩
  | failed => exact absurd ready (h.failed here).2

theorem exists_failed (h : Keeps g past v) (halted : v.responder ≠ .running ())
    (unready : ¬ g.Ready past) (now : Instant) : ∃ n, (v.turns now n).phase = .failed := by
  obtain ⟨outcome, halted⟩ := h.responder.resolve_left halted
  have comes (busy : v.Busy) : ∃ n, (v.turns now n).phase = .failed := by
    obtain ⟨n, w, onward, looking, probe, group, responder⟩ := exists_looking now busy
    have incomplete : ¬ w.probe.complete w.group.others = true := by
      rw [probe, group, h.group]
      exact mt h.probe.complete_iff.mp unready
    refine ⟨n + 2, ?_⟩
    rw [onward]
    simp [turns, turn?, looking, incomplete, responder, halted]
  cases here : v.phase with
  | looking => exact comes (.inl here)
  | listening =>
    cases word : v.word with
    | true => exact comes (.inr (.inl ⟨here, word⟩))
    | false => exact ⟨1, by simp [turns, turn?, here, word, halted]⟩
  | probing round => exact comes (.inr (.inr ⟨round, here⟩))
  | passed => exact absurd (h.passed here) unready
  | failed => exact ⟨0, here⟩

end Keeps

/-- The waiting task has done all it can, and the barrier stands where it does. -/
structure Matches (v : Vigil) (b : Barrier) : Prop where
  group : v.group = b.group
  probe : v.probe = b.probe
  responder : v.responder = b.responder
  sent : v.sent = b.sent
  gate : match b.gate with
    | .waiting ticker => v.phase = .listening ∧ v.word = false ∧ v.ticker = ticker
    | .passed => v.phase = .passed
    | .failed => v.phase = .failed
    | .broken => False

namespace Reachable

variable [Timer]

/-- To look is to reconsider the gate. -/
theorem exists_reconsidered (h : Reachable g interval past v) (looking : v.phase = .looking) :
    ∃ w, Reachable g interval past w ∧
      w.Matches (.reconsider ⟨v.group, .waiting v.ticker, v.probe, v.responder, v.sent⟩) := by
  cases complete : v.probe.complete v.group.others with
  | true =>
    have moved : v.turn? 0 = some { v with phase := .passed, word := false } := by
      simp [turn?, looking, complete]
    refine ⟨_, h.turn moved, ?_⟩
    rw [Barrier.reconsider]
    simp only [complete, if_true]
    exact ⟨rfl, rfl, rfl, rfl, rfl⟩
  | false =>
    have moved : v.turn? 0 = some { v with phase := .listening, word := false } := by
      simp [turn?, looking, complete]
    have listening := h.turn moved
    rcases h.keeps.responder with running | ⟨outcome, halted⟩
    · refine ⟨_, listening, ?_⟩
      rw [Barrier.reconsider]
      simp only [complete, running, Bool.false_eq_true, if_false]
      exact ⟨rfl, rfl, rfl, rfl, rfl, rfl, rfl⟩
    · have gone : turn? 0 { v with phase := .listening, word := false } =
          some { v with phase := .failed, word := false } := by
        simp [turn?, halted]
      refine ⟨_, listening.turn gone, ?_⟩
      rw [Barrier.reconsider]
      simp only [complete, halted, Bool.false_eq_true, if_false]
      exact ⟨rfl, rfl, rfl, rfl, rfl⟩

/-- While someone is missing, a tick leads to a round of probes and back. -/
theorem round (h : Reachable g interval past v) (listening : v.phase = .listening)
    (silent : v.word = false) (unready : ¬ g.Ready past) {now : Instant}
    (due : v.ticker.next ≤ now) : Reachable g interval past { v with
      ticker := v.ticker.skip 1, sent := v.sent ++ Sent.all now (v.probe.round v.group) } := by
  have incomplete : ¬ v.probe.complete v.group.others = true := by
    rw [h.keeps.group]
    exact mt h.keeps.probe.complete_iff.mp unready
  have back := (h.tick listening due).turns now ((v.probe.round v.group).length + 2)
  rw [turns_probing now rfl] at back
  simpa [Vigil.tick, Vigil.turns, turn?, incomplete, listening, silent] using back

theorem rounds (times : Nat) (h : Reachable g interval past v) (listening : v.phase = .listening)
    (silent : v.word = false) (unready : ¬ g.Ready past) {now : Instant}
    (due : ∀ k < times, v.ticker.next + k * v.ticker.period.nanos ≤ now) :
    Reachable g interval past { v with
      ticker := v.ticker.skip times
      sent := v.sent ++
        Sent.all now (List.replicate times (v.probe.round v.group)).flatten } := by
  induction times generalizing v with
  | zero => simpa [Ticker.skip, Sent.all] using h
  | succ times ih =>
    have first := due 0 (Nat.succ_pos times)
    rw [Nat.zero_mul, Nat.add_zero] at first
    have later := ih (h.round listening silent unready first) listening silent (fun k less => ?_)
    · have skipped : (v.ticker.skip 1).skip times = v.ticker.skip (times + 1) := by
        rw [Ticker.skip_skip, Nat.add_comm 1]
      rw [← skipped, List.replicate_succ, List.flatten_cons, Sent.all, List.map_append,
        ← List.append_assoc]
      exact later
    · have next := due (k + 1) (Nat.succ_lt_succ less)
      rw [Nat.add_mul, Nat.add_comm (k * _), ← Nat.add_assoc] at next
      exact next

end Reachable

namespace Matches

variable [Timer] {b : Barrier} {halted : Bool}

theorem settle (same : v.Matches b) (h : Reachable g interval past v)
    (stands : b.Stands g past halted) (now : Instant) :
    ∃ w, Reachable g interval past w ∧ w.Matches (b.settle now) := by
  have gate := same.gate
  cases here : b.gate with
  | waiting ticker =>
    rw [here] at gate
    obtain ⟨listening, silent, rfl⟩ := gate
    have unready : ¬ g.Ready past := by
      have waits := stands.gate
      rw [here] at waits
      exact waits.2
    have later := h.rounds (v.ticker.due now) listening silent unready fun k less =>
      Ticker.le_of_lt_due less
    refine ⟨_, later, ?_⟩
    simp only [Barrier.settle, here]
    exact ⟨same.group, same.probe, same.responder,
      by rw [same.sent, same.probe, same.group], listening, silent, rfl⟩
  | passed | failed | broken => exact ⟨v, h, by simpa only [Barrier.settle, here] using same⟩

/-- What the responder learns is looked at before anything else happens. -/
theorem hear (same : v.Matches b) (h : Reachable g interval past v)
    (stands : b.Stands g past false) (now : Instant) (source : Address) {bytes : Bytes}
    {s : Signal} (holds : Signal.decode bytes = .ok s) :
    ∃ w, Reachable g interval (past ++ [s]) w ∧
      w.Matches (b.arrive now (.datagram source bytes)) := by
  have running : b.responder = .running () := stands.responder
  have read : Signal.read? bytes = some s := by rw [Signal.read?, holds]
  have heard := h.hear (same.responder.trans running) now source bytes
  rw [read, Option.toList_some, hear_eq read] at heard
  rw [Barrier.arrive_eq running now source holds]
  have gate := same.gate
  have waits := stands.gate
  cases here : b.gate with
  | waiting ticker =>
    rw [here] at gate
    obtain ⟨listening, silent, rfl⟩ := gate
    by_cases known : (v.probe.hear v.group source s).1 = v.probe
    · have told : (b.probe.hear b.group source s).1 = b.probe := by
        rw [← same.probe, ← same.group, known]
      have still (more : List Sent) :
          Barrier.Stands g past false { b with sent := b.sent ++ more } :=
        ⟨stands.group, stands.probe, stands.responder, stands.gate⟩
      refine ⟨_, heard, ?_⟩
      rw [told, ← here, (still _).reconsider_eq_self, known]
      refine ⟨same.group, same.probe, same.responder, ?_, ?_⟩
      · rw [same.probe, same.group, same.sent]
      · rw [here]
        exact ⟨listening, by simp [silent], rfl⟩
    · have turned : turn? now { v with
          probe := (v.probe.hear v.group source s).1
          word := v.word || decide ((v.probe.hear v.group source s).1 ≠ v.probe)
          sent := v.sent ++ Sent.all now (v.probe.hear v.group source s).2.toList } = some { v with
          phase := .looking
          probe := (v.probe.hear v.group source s).1
          word := false
          sent := v.sent ++ Sent.all now (v.probe.hear v.group source s).2.toList } := by
        simp [turn?, listening, known]
      have := (heard.turn turned).exists_reconsidered rfl
      rw [same.probe, same.group, same.responder, same.sent] at this
      exact this
  | passed =>
    rw [here] at gate
    simp only [Barrier.reconsider, ← same.probe, ← same.group, ← same.sent]
    exact ⟨_, heard, rfl, rfl, same.responder, rfl, gate⟩
  | failed =>
    rw [here] at waits
    cases waits.1
  | broken =>
    rw [here] at waits
    cases waits

theorem stop (same : v.Matches b) (h : Reachable g interval past v)
    (stands : b.Stands g past false) (outcome : Outcome) : ∃ w, Reachable g interval past w ∧
      w.Matches (.reconsider { b with responder := .over outcome }) := by
  have running : b.responder = .running () := stands.responder
  have stopped := h.stop (same.responder.trans running) outcome
  obtain ⟨group, probe, -, sent, gate⟩ := same
  have waits := stands.gate
  cases here : b.gate with
  | waiting ticker =>
    rw [here] at gate waits
    obtain ⟨listening, silent, rfl⟩ := gate
    have turned : turn? 0 { v with responder := .over outcome } =
        some { v with phase := .failed, responder := .over outcome } := by
      simp [turn?, listening, silent]
    have incomplete : ¬ b.probe.complete b.group.others = true := by
      rw [stands.group]
      exact mt stands.probe.complete_iff.mp waits.2
    refine ⟨_, stopped.turn turned, ?_⟩
    simp only [Barrier.reconsider, if_neg incomplete]
    exact ⟨group, probe, rfl, sent, rfl⟩
  | passed =>
    rw [here] at gate
    exact ⟨_, stopped, group, probe, rfl, sent, gate⟩
  | failed =>
    rw [here] at waits
    cases waits.1
  | broken =>
    rw [here] at waits
    cases waits

theorem meet (same : v.Matches b) (h : Reachable g interval past v)
    (stands : b.Stands g past halted) (e : Instant × Barrier.Event) :
    ∃ w, Reachable g interval (past ++ if halted then [] else e.2.signal?.toList) w ∧
      w.Matches (b.meet e) := by
  obtain ⟨now, event⟩ := e
  cases event with
  | clock => simpa [Barrier.Event.signal?, Barrier.meet] using same.settle h stands now
  | arrival a =>
    cases halted with
    | true =>
      rw [Barrier.meet, stands.arrive_over]
      exact ⟨v, by simpa using h, same⟩
    | false =>
      have running : b.responder = .running () := stands.responder
      cases a with
      | datagram source bytes =>
        cases holds : Signal.decode bytes with
        | ok s =>
          simpa [Barrier.Event.signal?, Signal.read?, Barrier.meet, holds] using
            same.hear h stands now source holds
        | error e =>
          have ignored : b.arrive now (.datagram source bytes) = b := by
            simp only [Barrier.arrive, running, holds]
          rw [Barrier.meet, ignored]
          exact ⟨v, by simpa [Barrier.Event.signal?, Signal.read?, holds] using h, same⟩
      | cancel =>
        simpa [Barrier.Event.signal?, Barrier.meet, Barrier.arrive, running] using
          same.stop h stands .ended
      | failure reason =>
        simpa [Barrier.Event.signal?, Barrier.meet, Barrier.arrive, running] using
          same.stop h stands (.failed reason)

end Matches

/-- Every run of a barrier is one that its two tasks can have. -/
theorem exists_matches [Timer] (period : 0 < interval.nanos) (g : Group) (now : Instant)
    (events : List (Instant × Barrier.Event)) :
    ∃ v, Reachable g interval (Barrier.handled events) v ∧
      v.Matches ((Barrier.start g interval now).run events) := by
  induction events using List.reverseRecOn with
  | nil =>
    obtain ⟨gate, started, ⟨-, zero⟩ | ⟨ticker, set, rfl⟩⟩ := Barrier.start_eq g interval now
    · exact absurd zero (Nat.ne_of_gt period)
    · obtain ⟨v, h, same⟩ := (Reachable.start (g := g) set).exists_reconsidered rfl
      exact ⟨v, h, started ▸ same⟩
  | append_singleton events e ih =>
    obtain ⟨v, h, same⟩ := ih
    rw [Barrier.handled_concat, Barrier.run_concat]
    exact same.meet h (Barrier.stands_run period g now events) e

/-- What a vigil does that has come somewhere after some signals, whichever task went first. -/
structure Exact (g : Group) (past : List Signal) (v : Vigil) : Prop where
  passed : v.phase = .passed → g.Ready past
  failed : v.phase = .failed → v.responder ≠ .running () ∧ ¬ g.Ready past
  passes : g.Ready past → ∀ now, ∃ n, (v.turns now n).phase = .passed
  fails : v.responder ≠ .running () → ¬ g.Ready past → ∀ now, ∃ n, (v.turns now n).phase = .failed
  probes : ∃ round, List.Forall₂ g.Probes (g.unanswered past) round ∧
    ∀ now, (v.tick.turns now round.length).sent = v.sent ++ Sent.all now round
  answers : ∀ now source bytes,
    (v.hear now source bytes).sent = v.sent ++ g.replies now source bytes
  ignores : ∀ now source bytes, ¬ g.Heeds bytes → v.hear now source bytes = v

theorem Keeps.exact (h : Keeps g past v) : Exact g past v := by
  refine ⟨h.passed, h.failed, h.exists_passed, h.exists_failed, ?_, fun now source bytes => ?_,
    fun now source bytes foreign => ?_⟩
  · refine ⟨v.probe.round g, h.probe.round, fun now => ?_⟩
    rw [← h.group]
    exact congrArg Vigil.sent (turns_probing now rfl 0)
  · cases read : Signal.read? bytes with
    | none => simp [Vigil.hear, read, Group.replies]
    | some s => rw [hear_eq read, ← h.group, ← Probe.hear_replies v.probe now source read]
  · cases read : Signal.read? bytes with
    | none => simp only [Vigil.hear, read]
    | some s =>
      have unheeded : ∀ m ∈ v.group.others, s ≠ .alive m ∧ s ≠ .aliveAnswer m := fun m other =>
        ⟨fun same => foreign ⟨m, h.group ▸ other, .inl (same ▸ read)⟩,
          fun same => foreign ⟨m, h.group ▸ other, .inr (same ▸ read)⟩⟩
      rw [hear_eq read, Probe.hear_eq_self _ source unheeded]
      simp [Sent.all]

/-- The barrier opens as soon as everyone else has been heard and has answered, and never before.
Its responder goes on, and its end before that is an error. No order of the two tasks is any
different. -/
theorem opens_when_ready [Timer] (period : 0 < interval.nanos) (g : Group) :
    (∀ now events, Barrier.Exact g (Barrier.handled events) (Barrier.ended events)
        ((Barrier.start g interval now).run events) ∧
      ∃ v, Reachable g interval (Barrier.handled events) v ∧
        v.Matches ((Barrier.start g interval now).run events)) ∧
      ∀ {past v}, Reachable g interval past v → Exact g past v :=
  ⟨fun now events => ⟨(Barrier.stands_run period g now events).exact,
    exists_matches period g now events⟩, fun h => h.keeps.exact⟩

/-- The responder ends right after the last answer, or right before it. -/
theorem opens_when_ready_of_last_answer :
    let g : Group :=
      ⟨⟨1⟩, [⟨⟨1⟩, "a", .loopback 1⟩, ⟨⟨2⟩, "b", .loopback 2⟩, ⟨⟨3⟩, "c", .loopback 3⟩]⟩
    let tell (s : Signal) : Instant × Barrier.Event :=
      (5, .arrival (.datagram (.loopback 9) s.encode))
    let early := [(0, .clock), tell (.alive ⟨2⟩), tell (.aliveAnswer ⟨3⟩), tell (.alive ⟨2⟩),
      tell (.aliveAnswer ⟨1⟩), tell (.alive ⟨3⟩)]
    let b := Barrier.start g (.ofSeconds 1) 0
    (b.run (early ++ [tell (.aliveAnswer ⟨2⟩), (5, .arrival .cancel)])).gate = .passed ∧
      (b.run (early ++ [(5, .arrival .cancel), tell (.aliveAnswer ⟨2⟩)])).gate = .failed := by
  intro g tell early b
  have exact := (opens_when_ready (show 0 < (Span.ofSeconds 1).nanos by decide) g).1 0
  exact ⟨(exact _).1.passed.mpr (by decide +kernel),
    (exact _).1.failed.mpr ⟨by decide +kernel, by decide +kernel⟩⟩

end Vigil

end Concord
