import Concord.Proofs.Rendezvous.Probe
import Concord.Rendezvous.Barrier
import Mathlib.Data.List.Induction

/-!
A barrier in all its runs. Its gate stands open exactly if everyone else has been heard and has
answered; it fails exactly if the responder has ended before.
-/

namespace Concord.Barrier

theorem reconsider_frame (b : Barrier) : b.reconsider.group = b.group ∧
    b.reconsider.probe = b.probe ∧ b.reconsider.responder = b.responder ∧
    b.reconsider.sent = b.sent := by
  unfold reconsider
  repeat' split
  all_goals exact ⟨rfl, rfl, rfl, rfl⟩

theorem start_eq [Timer] (group : Group) (interval : Span) (now : Instant) :
    ∃ gate, start group interval now = reconsider ⟨group, gate, .none, .running (), []⟩ ∧
      (gate = .broken ∧ interval.nanos = 0 ∨
        ∃ ticker, Ticker.start? now interval = some ticker ∧ gate = .waiting ticker) := by
  unfold start
  split
  · rename_i ticker set
    exact ⟨.waiting ticker, rfl, .inr ⟨ticker, set, rfl⟩⟩
  · rename_i none
    refine ⟨.broken, rfl, .inl ⟨rfl, ?_⟩⟩
    refine Classical.byContradiction fun some => ?_
    rw [Ticker.start?, dif_pos (Nat.pos_of_ne_zero some)] at none
    cases none

theorem arrive_eq {b : Barrier} (responding : b.responder = .running ()) (now : Instant)
    (source : Address) {bytes : Bytes} {s : Signal} (holds : Signal.decode bytes = .ok s) :
    b.arrive now (.datagram source bytes) =
      reconsider { b with
        probe := (b.probe.hear b.group source s).1
        sent := b.sent ++ Sent.all now (b.probe.hear b.group source s).2.toList } := by
  simp only [arrive, responding, holds]

/-- What reaches a barrier. It looks at the clock, or its responder finds something. -/
inductive Event where
  | clock
  | arrival (a : Arrival)

/-- Whether the responder ends. -/
def Event.ends : Event → Bool
  | .arrival .cancel | .arrival (.failure _) => true
  | .arrival (.datagram _ _) | .clock => false

def Event.signal? : Event → Option Signal
  | .arrival (.datagram _ bytes) => Signal.read? bytes
  | _ => none

def meet (b : Barrier) : Instant × Event → Barrier
  | (now, .clock) => b.settle now
  | (now, .arrival a) => b.arrive now a

def run (b : Barrier) (events : List (Instant × Event)) : Barrier := events.foldl meet b

/-- The responder has ended. -/
def ended (events : List (Instant × Event)) : Bool := events.any fun e => e.2.ends

/-- The signals that the responder has handled, which are those that came before it ended. -/
def handled (events : List (Instant × Event)) : List Signal :=
  (events.takeWhile fun e => !e.2.ends).filterMap fun e => e.2.signal?

theorem ended_concat (events : List (Instant × Event)) (e : Instant × Event) :
    ended (events ++ [e]) = (ended events || e.2.ends) := by
  simp [ended]

theorem Event.signal?_of_ends {e : Event} (ends : e.ends = true) : e.signal? = none := by
  cases e with
  | clock => rfl
  | arrival a =>
    cases a with
    | datagram => cases ends
    | cancel | failure => rfl

theorem handled_cons (e : Instant × Event) (later : List (Instant × Event)) :
    handled (e :: later) = if e.2.ends then [] else e.2.signal?.toList ++ handled later := by
  cases ends : e.2.ends with
  | true => simp [handled, ends]
  | false => cases signal : e.2.signal? <;> simp [handled, ends, signal]

theorem handled_concat (events : List (Instant × Event)) (e : Instant × Event) :
    handled (events ++ [e]) =
      handled events ++ if ended events then [] else e.2.signal?.toList := by
  induction events with
  | nil =>
    rw [List.nil_append, handled_cons]
    split
    · rename_i ends
      simp [handled, ended, Event.signal?_of_ends ends]
    · simp [handled, ended]
  | cons first rest ih =>
    have later : ended (first :: rest) = (first.2.ends || ended rest) := rfl
    rw [List.cons_append, handled_cons, handled_cons, later, ih]
    cases first.2.ends <;> simp

/-- Where a barrier stands that has handled some signals, and whose responder has ended or not. -/
structure Stands (g : Group) (past : List Signal) (halted : Bool) (b : Barrier) : Prop where
  group : b.group = g
  probe : b.probe.Reflects g past
  responder : if halted then ∃ outcome, b.responder = .over outcome else b.responder = .running ()
  gate : match b.gate with
    | .waiting _ => halted = false ∧ ¬ g.Ready past
    | .passed => g.Ready past
    | .failed => halted = true ∧ ¬ g.Ready past
    | .broken => False

variable {g : Group} {past : List Signal} {halted : Bool} {b : Barrier}

theorem ready_concat (ready : g.Ready past) (more : List Signal) : g.Ready (past ++ more) :=
  fun m other => (ready m other).imp (List.mem_append_left _) (List.mem_append_left _)

/-- A gate that was not opened or refused too early is right after it was reconsidered. -/
theorem stands_reconsider (group : b.group = g) (probe : b.probe.Reflects g past)
    (responder : if halted then ∃ outcome, b.responder = .over outcome
      else b.responder = .running ())
    (gate : match b.gate with
      | .waiting _ => True
      | .passed => g.Ready past
      | .failed => halted = true ∧ ¬ g.Ready past
      | .broken => False) : Stands g past halted b.reconsider := by
  subst group
  obtain ⟨group, probe', responder', -⟩ := b.reconsider_frame
  refine ⟨group, probe' ▸ probe, responder' ▸ responder, ?_⟩
  have complete := probe.complete_iff
  cases here : b.gate with
  | waiting ticker =>
    by_cases ready : b.group.Ready past
    · simpa [reconsider, here, complete.mpr ready] using ready
    · have incomplete := mt complete.mp ready
      cases halted with
      | true =>
        obtain ⟨outcome, done⟩ := responder
        simpa [reconsider, here, incomplete, done] using ready
      | false =>
        have running : b.responder = .running () := responder
        simpa [reconsider, here, incomplete, running] using ready
  | passed => simpa [reconsider, here] using gate
  | failed => simpa [reconsider, here] using gate
  | broken => simp [here] at gate

theorem stands_start [Timer] {interval : Span} (period : 0 < interval.nanos) (g : Group)
    (now : Instant) :
    Stands g [] false (start g interval now) := by
  obtain ⟨gate, started, ⟨-, zero⟩ | ⟨ticker, -, rfl⟩⟩ := start_eq g interval now
  · exact absurd zero (Nat.ne_of_gt period)
  · rw [started]
    exact stands_reconsider rfl (Probe.reflects_none g) rfl trivial

namespace Stands

/-- There is nothing left to reconsider. -/
theorem reconsider_eq_self (h : Stands g past halted b) : b.reconsider = b := by
  obtain ⟨rfl, probe, responder, gate⟩ := h
  unfold reconsider
  cases here : b.gate with
  | waiting ticker =>
    rw [here] at gate
    obtain ⟨rfl, unready⟩ := gate
    have running : b.responder = .running () := responder
    simp [mt probe.complete_iff.mp unready, running]
  | passed | failed | broken => rfl

theorem settle (h : Stands g past halted b) (now : Instant) :
    Stands g past halted (b.settle now) := by
  unfold Barrier.settle
  split
  · rename_i ticker waiting
    have gate := h.gate
    rw [waiting] at gate
    exact ⟨h.group, h.probe, h.responder, gate⟩
  · exact h

theorem arrive_over (h : Stands g past true b) (now : Instant) (a : Arrival) :
    b.arrive now a = b := by
  obtain ⟨outcome, done⟩ : ∃ outcome, b.responder = .over outcome := h.responder
  simp only [arrive, done]

theorem hear (h : Stands g past false b) (now : Instant) (source : Address) {bytes : Bytes}
    {s : Signal} (holds : Signal.decode bytes = .ok s) :
    Stands g (past ++ [s]) false (b.arrive now (.datagram source bytes)) := by
  have running : b.responder = .running () := h.responder
  rw [arrive_eq running now source holds]
  refine stands_reconsider h.group ?_ running ?_
  · rw [h.group]
    exact h.probe.hear source s
  · have gate := h.gate
    cases here : b.gate with
    | waiting ticker => trivial
    | passed =>
      rw [here] at gate
      exact ready_concat gate _
    | failed =>
      rw [here] at gate
      cases gate.1
    | broken =>
      rw [here] at gate
      exact gate

theorem ends (h : Stands g past false b) (outcome : Outcome) :
    Stands g past true (reconsider { b with responder := .over outcome }) := by
  refine stands_reconsider h.group h.probe ⟨outcome, rfl⟩ ?_
  have gate := h.gate
  cases here : b.gate with
  | waiting ticker => trivial
  | passed =>
    rw [here] at gate
    exact gate
  | failed =>
    rw [here] at gate
    cases gate.1
  | broken =>
    rw [here] at gate
    exact gate

theorem meet (h : Stands g past halted b) (e : Instant × Event) :
    Stands g (past ++ if halted then [] else e.2.signal?.toList) (halted || e.2.ends)
      (b.meet e) := by
  obtain ⟨now, event⟩ := e
  cases event with
  | clock => simpa [Event.signal?, Event.ends, Barrier.meet] using h.settle now
  | arrival a =>
    cases halted with
    | true =>
      rw [Barrier.meet, h.arrive_over]
      simpa using h
    | false =>
      have running : b.responder = .running () := h.responder
      cases a with
      | datagram source bytes =>
        cases holds : Signal.decode bytes with
        | ok s =>
          simpa [Event.signal?, Signal.read?, Event.ends, Barrier.meet, holds] using
            h.hear now source holds
        | error e =>
          have ignored : b.arrive now (.datagram source bytes) = b := by
            simp only [arrive, running, holds]
          simpa [Event.signal?, Signal.read?, Event.ends, holds, Barrier.meet, ignored] using h
      | cancel =>
        have arrived : b.arrive now .cancel = reconsider { b with responder := .over .ended } := by
          simp only [arrive, running]
        simpa [Event.signal?, Event.ends, Barrier.meet, arrived] using h.ends .ended
      | failure reason =>
        have arrived : b.arrive now (.failure reason) =
            reconsider { b with responder := .over (.failed reason) } := by
          simp only [arrive, running]
        simpa [Event.signal?, Event.ends, Barrier.meet, arrived] using h.ends (.failed reason)

end Stands

/-- What a barrier does that has handled some signals, and whose responder has ended or not. -/
structure Exact (g : Group) (past : List Signal) (halted : Bool) (b : Barrier) : Prop where
  passed : b.gate = .passed ↔ g.Ready past
  failed : b.gate = .failed ↔ halted = true ∧ ¬ g.Ready past
  waiting : (∃ ticker, b.gate = .waiting ticker) ↔ halted = false ∧ ¬ g.Ready past
  probes : ∀ {ticker}, b.gate = .waiting ticker →
    ∃ round, List.Forall₂ g.Probes (g.unanswered past) round ∧ ∀ now,
      (b.settle now).sent =
        b.sent ++ Sent.all now (List.replicate (ticker.due now) round).flatten
  rests : halted = true ∨ g.Ready past → ∀ now, b.settle now = b
  answers : halted = false → ∀ now source bytes,
    (b.arrive now (.datagram source bytes)).sent = b.sent ++ g.replies now source bytes
  ignores : ∀ now source bytes, ¬ g.Heeds bytes → b.arrive now (.datagram source bytes) = b

namespace Stands

theorem answers (h : Stands g past false b) (now : Instant) (source : Address) (bytes : Bytes) :
    (b.arrive now (.datagram source bytes)).sent = b.sent ++ g.replies now source bytes := by
  have running : b.responder = .running () := h.responder
  cases holds : Signal.decode bytes with
  | ok s =>
    have read : Signal.read? bytes = some s := by rw [Signal.read?, holds]
    rw [arrive_eq running now source holds, (reconsider_frame _).2.2.2, h.group,
      Probe.hear_replies _ now source read]
  | error e =>
    have read : Signal.read? bytes = none := by rw [Signal.read?, holds]
    simp only [arrive, running, holds, Group.replies, read, List.append_nil]

theorem ignores (h : Stands g past halted b) (now : Instant) (source : Address) {bytes : Bytes}
    (foreign : ¬ g.Heeds bytes) : b.arrive now (.datagram source bytes) = b := by
  cases halted with
  | true => exact h.arrive_over now _
  | false =>
    have running : b.responder = .running () := h.responder
    obtain rfl := h.group
    cases holds : Signal.decode bytes with
    | ok s =>
      have read : Signal.read? bytes = some s := by rw [Signal.read?, holds]
      have unheeded : ∀ m ∈ b.group.others, s ≠ .alive m ∧ s ≠ .aliveAnswer m := fun m other =>
        ⟨fun same => foreign ⟨m, other, .inl (same ▸ read)⟩,
          fun same => foreign ⟨m, other, .inr (same ▸ read)⟩⟩
      rw [arrive_eq running now source holds, Probe.hear_eq_self _ source unheeded,
        Option.toList_none, Sent.all, List.map_nil, List.append_nil]
      exact h.reconsider_eq_self
    | error e => simp only [arrive, running, holds]

theorem exact (h : Stands g past halted b) : Exact g past halted b := by
  have gate := h.gate
  refine ⟨?_, ?_, ?_, fun {ticker} waiting => ?_, fun settled now => ?_,
    fun going now source bytes => ?_, fun now source bytes foreign => h.ignores now source foreign⟩
  · cases here : b.gate <;> simp_all
  · cases here : b.gate <;> simp_all
  · cases here : b.gate <;> simp_all
  · refine ⟨b.probe.round g, h.probe.round, fun now => ?_⟩
    simp only [Barrier.settle, waiting, h.group]
  · unfold Barrier.settle
    split
    · rename_i ticker waiting
      rw [waiting] at gate
      obtain ⟨rfl, unready⟩ := gate
      exact absurd (settled.resolve_left Bool.false_ne_true) unready
    · rfl
  · subst going
    exact h.answers now source bytes

end Stands

theorem run_concat (b : Barrier) (events : List (Instant × Event)) (e : Instant × Event) :
    b.run (events ++ [e]) = (b.run events).meet e :=
  List.foldl_concat ..

theorem stands_run [Timer] {interval : Span} (period : 0 < interval.nanos) (g : Group) (now : Instant)
    (events : List (Instant × Event)) :
    Stands g (handled events) (ended events) ((start g interval now).run events) := by
  induction events using List.reverseRecOn with
  | nil => exact stands_start period g now
  | append_singleton events e ih =>
    rw [handled_concat, ended_concat, run_concat]
    exact ih.meet e

end Concord.Barrier
