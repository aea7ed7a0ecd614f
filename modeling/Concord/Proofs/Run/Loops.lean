import Concord.Proofs.Run.Sender

/-!
A sender with one loop at an instant. Whether the loop keeps a call does not show in what it comes
to, for it uses the call up in a round that finds nothing.
-/

namespace Concord

namespace Pump

/-- Where a loop stands, but for a call that it keeps. -/
abbrev Face := Phase × Schedule

def face (p : Pump) : Face := (p.phase, p.schedule)

/-- Where a loop is between two instants. One that waits has started its schedule over. -/
def Settled : Face → Prop
  | (.waiting, s) => s.reset = s
  | (.ready, s) | (.pausing _, s) => 0 < s.current.nanos
  | (.sending _, _) | (.idle, _) => False

theorem settled_start {base ceiling : Span} {p : Pump} (started : start base ceiling = .ok p) :
    p.phase = .ready ∧ Settled p.face := by
  cases valid : Schedule.start base ceiling with
  | error e =>
    rw [start, valid] at started
    cases started
  | ok s =>
    cases start_eq_ok valid started
    have fresh := Schedule.start_eq_ok valid
    exact ⟨rfl, Nat.lt_of_lt_of_eq s.base_pos (congrArg Span.nanos fresh.symm)⟩

/-- What calls make of a loop. -/
def summoned (n : Nat) (f : Face) : Face := if f.1 = .waiting ∧ 0 < n then (.ready, f.2) else f

theorem face_callTimes (p : Pump) (n : Nat) : (p.callTimes n).face = summoned n p.face := by
  induction n generalizing p with
  | zero => exact (if_neg fun h => Nat.lt_irrefl 0 h.2).symm
  | succ n ih =>
    rw [callTimes, ih]
    rcases p.call_cases with ⟨waits, woken⟩ | ⟨busy, kept⟩
    · rw [woken]
      simp [summoned, face, waits]
    · rw [kept]
      simp [summoned, face, busy]

theorem Settled.summoned {f : Face} (settled : Settled f) (n : Nat) : Settled (summoned n f) := by
  unfold Pump.summoned
  split
  · rename_i called
    obtain ⟨phase, s⟩ := f
    cases called.1
    have fresh : s.reset = s := settled
    rw [Settled, ← fresh]
    exact s.base_pos
  · exact settled

variable [Timer]

/-- What a loop that takes a round comes to, with what it sends. -/
def rounded (now : Instant) (round : List (Address × Bytes)) (s : Schedule) :
    Face × List (Address × Bytes) :=
  if round.isEmpty then ((.waiting, s.reset), [])
  else ((.pausing (Instant.after now s.next.1), s.next.2), round)

/-- What a settled loop comes to at an instant, with what it sends. -/
def comesTo (now : Instant) (round : List (Address × Bytes)) :
    Face → Face × List (Address × Bytes)
  | (.ready, s) => rounded now round s
  | (.pausing due, s) => if due ≤ now then rounded now round s else ((.pausing due, s), [])
  | (phase, s) => ((phase, s), [])

variable {now : Instant} {round : List (Address × Bytes)}

theorem run_eq_self {p : Pump} (rests : p.step? now round = none) (n : Nat) :
    Pump.run now round n p = (p, []) := by
  cases n with
  | zero => rfl
  | succ n => rw [Pump.run, rests]

theorem run_succ {p q : Pump} {mail : List (Address × Bytes)}
    (moved : p.step? now round = some (q, mail)) (n : Nat) :
    Pump.run now round (n + 1) p =
      ((q.run now round n).1, mail ++ (q.run now round n).2) := by
  rw [Pump.run, moved]

theorem run_ready (now : Instant) (round : List (Address × Bytes)) {s : Schedule}
    (pos : 0 < s.current.nanos) (called : Bool) (n : Nat) :
    let after := Pump.run now round (n + 4) ⟨.ready, s, called⟩
    (after.1.face, after.2) = rounded now round s := by
  intro after
  by_cases nothing : round.isEmpty = true
  · have stop (s : Schedule) (called : Bool) : step? now round ⟨.ready, s, called⟩ =
        some (⟨.idle, s.reset, called⟩, []) := if_pos nothing
    have wait (n : Nat) : Pump.run now round (n + 1) ⟨.idle, s.reset, false⟩ =
        (⟨.waiting, s.reset, false⟩, []) := by
      rw [run_succ rfl, run_eq_self rfl]
      rfl
    have waits : after = (⟨.waiting, s.reset, false⟩, []) := by
      cases called with
      | false => exact (run_succ (stop s false) (n + 3)).trans (by rw [wait]; rfl)
      | true =>
        refine (run_succ (stop s true) (n + 3)).trans ?_
        rw [run_succ rfl, run_succ (stop s.reset false)]
        exact congrArg (fun p => (p.1, [] ++ ([] ++ ([] ++ p.2)))) (wait n)
    rw [waits, rounded, if_pos nothing]
    rfl
  · have take : step? now round ⟨.ready, s, called⟩ = some (⟨.sending round, s, called⟩, []) :=
      if_neg nothing
    have send : step? now round ⟨.sending round, s, called⟩ =
        some (⟨.pausing (Instant.after now s.next.1), s.next.2, called⟩, round) := rfl
    have rests : step? now round
        ⟨.pausing (Instant.after now s.next.1), s.next.2, called⟩ = none :=
      if_neg (Nat.not_le.mpr (Instant.lt_after pos))
    have pauses : after = (⟨.pausing (Instant.after now s.next.1), s.next.2, called⟩, round) := by
      refine (run_succ take (n + 3)).trans ?_
      rw [run_succ send, run_eq_self rests, List.append_nil, List.nil_append]
    rw [pauses, rounded, if_neg nothing]
    rfl

theorem settle_eq (now : Instant) (round : List (Address × Bytes)) {p : Pump}
    (settled : Settled p.face) :
    ((p.settle now round).1.face, (p.settle now round).2) = comesTo now round p.face := by
  obtain ⟨phase, s, called⟩ := p
  cases phase with
  | ready => exact run_ready now round settled called 2
  | sending | idle => cases settled
  | waiting => rfl
  | pausing due =>
    by_cases elapsed : due ≤ now
    · have woken := run_ready now round settled called 1
      simpa [Pump.settle, Pump.run, step?, comesTo, face, elapsed] using woken
    · simp [Pump.settle, Pump.run, step?, comesTo, face, elapsed]

theorem Settled.comesTo {f : Face} (settled : Settled f) : Settled (comesTo now round f).1 := by
  have rounded {s : Schedule} (pos : 0 < s.current.nanos) : Settled (rounded now round s).1 := by
    unfold Pump.rounded
    split
    · rfl
    · exact Schedule.next_pos pos
  obtain ⟨phase, s⟩ := f
  cases phase with
  | ready => exact rounded settled
  | sending | idle => cases settled
  | waiting => exact settled
  | pausing due =>
    rw [Pump.comesTo]
    split
    · exact rounded settled
    · exact settled

/-- A loop that waits does nothing. -/
theorem mail_of_uncalled {f : Face} (waits : f.1 = .waiting) :
    (comesTo now round (summoned 0 f)).2 = [] := by
  obtain ⟨phase, s⟩ := f
  cases waits
  rfl

/-- A loop that is called while it waits sends what there is to send. -/
theorem mail_of_called {f : Face} (waits : f.1 = .waiting) (some : round ≠ []) {n : Nat}
    (called : 0 < n) : (comesTo now round (summoned n f)).2 = round := by
  obtain ⟨phase, s⟩ := f
  cases waits
  simp [summoned, comesTo, rounded, called, some]

/-- How often a loop is called does not matter, and whether it is called only if there is something
to send. -/
theorem comesTo_summoned {f : Face} (settled : Settled f) {n : Nat}
    (called : f.1 = .waiting → round ≠ [] → 0 < n) :
    comesTo now round (summoned n f) = comesTo now round (summoned 1 f) := by
  obtain ⟨phase, s⟩ := f
  by_cases waits : phase = .waiting
  · cases waits
    rcases Nat.eq_zero_or_pos n with rfl | more
    · have nothing : round = [] := by
        by_contra some
        exact Nat.lt_irrefl 0 (called rfl some)
      have fresh : s.reset = s := settled
      simp [summoned, comesTo, rounded, nothing, fresh]
    · simp [summoned, more]
  · simp [summoned, waits]

/-- A loop that was called waits only if there is nothing to send. -/
theorem round_eq_nil_of_waits {f : Face} (settled : Settled f)
    (waits : (comesTo now round (summoned 1 f)).1.1 = .waiting) : round = [] := by
  have found {s : Schedule} (waits : (rounded now round s).1.1 = .waiting) : round = [] := by
    unfold rounded at waits
    split at waits
    · exact List.isEmpty_iff.mp ‹_›
    · cases waits
  obtain ⟨phase, s⟩ := f
  cases phase with
  | ready => exact found waits
  | sending | idle => cases settled
  | waiting => exact found waits
  | pausing due =>
    by_cases elapsed : due ≤ now
    · exact found (by simpa [summoned, comesTo, elapsed] using waits)
    · simp [summoned, comesTo, elapsed] at waits

end Pump

namespace Sender

open Pump (Settled comesTo summoned)

variable {α : Type} {s : Sender α} {p : Pump}

theorem begin_of_error {e : ScheduleError}
    (started : Pump.start s.basePause s.longestPause = .error e) :
    s.begin = { s with loops := .over .broken } := by
  rw [begin, started]

theorem begin_of_idle (started : Pump.start s.basePause s.longestPause = .ok p)
    (idle : s.loops.state? = none) : s.begin = { s with loops := .running [p] } := by
  unfold begin
  rw [started]
  split
  · rename_i running
    rw [running] at idle
    cases idle
  · rename_i same _
    cases same
    rfl
  · rename_i failed
    cases failed

variable [Mail α] [Timer]

/-- What the loop of a sender comes to at an instant, once the calls are made. -/
def comes (now : Instant) (s : Sender α) (p : Pump) : Pump.Face × List (Address × Bytes) :=
  comesTo now (s.outbox.round s.group.addressOf) (summoned s.outbox.calls p.face)

theorem settle_idle (idle : s.loops.state? = none) (now : Instant) : s.settle now = s := by
  unfold settle
  split
  · rename_i running
    rw [running] at idle
    cases idle
  · rfl

theorem settle_running (running : s.loops = .running [p]) (settled : Settled p.face)
    (now : Instant) : ∃ q : Pump, q.face = (s.comes now p).1 ∧ s.settle now = { s with
      outbox := { s.outbox with calls := 0 }
      loops := .running [q]
      sent := s.sent ++ Sent.all now (s.comes now p).2 } := by
  have called := Pump.face_callTimes p s.outbox.calls
  have after := Pump.settle_eq now (s.outbox.round s.group.addressOf)
    (called ▸ settled.summoned s.outbox.calls)
  rw [called] at after
  have mail : _ = (s.comes now p).2 := congrArg Prod.snd after
  refine ⟨_, congrArg Prod.fst after, ?_⟩
  rw [← mail, settle, running]
  simp only [Pump.callOneTimes_singleton, List.map_cons, List.map_nil, List.flatMap_cons,
    List.flatMap_nil, List.append_nil]

end Sender

end Concord
