import Concord.Group.Basic
import Concord.Proofs.Retry.Timetable
import Concord.Retry.Pump
import Mathlib.Data.List.Infix

/-!
An outbox and its sending loop in time. Between two steps of the loop anything may be done to the
outbox, and any hand-over to the network may fail. The clock stands still while the loop has
something to do; a timer goes off at a reading of its own clock.
-/

namespace Concord

/-- A datagram handed to the network, and what came of it. -/
structure Attempt where
  sent : Sent
  outcome : Except String Unit

/-- What comes of an attempt after others. -/
abbrev Transport := List Attempt → Sent → Except String Unit

namespace Pump

theorem start_eq_ok {base ceiling : Span} {s : Schedule} {p : Pump}
    (valid : Schedule.start base ceiling = .ok s) (started : start base ceiling = .ok p) :
    p = ⟨.ready, s, false⟩ := by
  rw [start, valid] at started
  cases started
  rfl

theorem call_cases (p : Pump) :
    p.phase = .waiting ∧ p.call = { p with phase := .ready } ∨
      p.phase ≠ .waiting ∧ p.call = { p with called := true } := by
  obtain ⟨phase, schedule, called⟩ := p
  cases phase with
  | waiting => exact .inl ⟨rfl, rfl⟩
  | ready | sending | idle | pausing => exact .inr ⟨nofun, rfl⟩

variable [Timer]

/-- What a step of the loop makes of it, with the datagrams that it sends. -/
inductive Moves (now : Instant) (round : List (Address × Bytes)) :
    Pump → Pump → List (Address × Bytes) → Prop where
  | take {schedule called} (found : round ≠ []) :
      Moves now round ⟨.ready, schedule, called⟩ ⟨.sending round, schedule, called⟩ []
  | stop {schedule called} (nothing : round = []) :
      Moves now round ⟨.ready, schedule, called⟩ ⟨.idle, schedule.reset, called⟩ []
  | send {taken schedule called} :
      Moves now round ⟨.sending taken, schedule, called⟩
        ⟨.pausing (Instant.after now schedule.next.1), schedule.next.2, called⟩ taken
  | wake {due schedule called} (elapsed : due ≤ now) :
      Moves now round ⟨.pausing due, schedule, called⟩ ⟨.ready, schedule, called⟩ []
  | again {schedule} : Moves now round ⟨.idle, schedule, true⟩ ⟨.ready, schedule, false⟩ []
  | wait {schedule} : Moves now round ⟨.idle, schedule, false⟩ ⟨.waiting, schedule, false⟩ []

theorem moves_of_step? {now : Instant} {round mail : List (Address × Bytes)} {p next : Pump}
    (h : p.step? now round = some (next, mail)) : p.Moves now round next mail := by
  obtain ⟨phase, schedule, called⟩ := p
  unfold step? at h
  cases phase with
  | ready =>
    dsimp only at h
    split at h <;> cases h
    · exact .stop (List.isEmpty_iff.mp ‹_›)
    · exact .take fun nothing => ‹¬ _› (List.isEmpty_iff.mpr nothing)
  | sending taken =>
    cases h
    exact .send
  | idle =>
    cases called <;> cases h
    · exact .wait
    · exact .again
  | waiting => cases h
  | pausing due =>
    dsimp only at h
    split at h <;> cases h
    exact .wake ‹_›

/-- The loop does nothing by itself before an instant. -/
def Rests (p : Pump) (limit : Instant) : Prop :=
  p.phase = .waiting ∨ ∃ due, p.due? = some due ∧ limit ≤ Instant.roundUp due

end Pump

/-- Members of the group are written to. -/
def Deed.Addressed {α : Type} (g : Group) (d : Deed α) : Prop :=
  ∀ item recipients, d = .put item recipients → ∀ m ∈ recipients, m ∈ g.ids

theorem Outbox.known_perform {α : Type} [Mail α] {g : Group} {o : Outbox α}
    (h : ∀ item member, o.Owes item member → member ∈ g.ids) {d : Deed α}
    (addressed : d.Addressed g) :
    ∀ item member, (o.perform d).Owes item member → member ∈ g.ids := by
  intro item member owes
  cases d with
  | put new recipients =>
    rcases owes_put.mp owes with old | ⟨rfl, listed⟩
    · exact h item member old
    · exact addressed _ recipients rfl member listed
  | acknowledge id other => exact h item member (owes_of_acknowledge owes)
  | forget other => exact h item member (owes_forget.mp owes).1

/-- Members of the group are written to, and never about a message that is still on its way. -/
def Outbox.Allows {α : Type} [Mail α] (g : Group) (o : Outbox α) (d : Deed α) : Prop :=
  o.Fits d ∧ ∀ item recipients, d = .put item recipients → ∀ m ∈ recipients, m ∈ g.ids

structure Courier (α : Type) where
  now : Instant
  outbox : Outbox α
  loop : Option Pump
  attempts : List Attempt
  history : List (Note α)

namespace Courier

variable {α : Type}

def start : Courier α := ⟨0, .empty, none, [], []⟩

/-- Hands datagrams over one by one, whatever comes of each. -/
def handOver (transport : Transport) (attempts : List Attempt) (sent : List Sent) : List Attempt :=
  sent.foldl (fun done s => done ++ [⟨s, transport done s⟩]) attempts

/-- What the loop has taken and is still to hand over. -/
def inHand (c : Courier α) : List Sent :=
  match c.loop with
  | some ⟨.sending mail, _, _⟩ => Sent.all c.now mail
  | _ => []

theorem sent_handOver (transport : Transport) (attempts : List Attempt) (sent : List Sent) :
    (handOver transport attempts sent).map Attempt.sent = attempts.map Attempt.sent ++ sent := by
  induction sent generalizing attempts with
  | nil => rw [List.append_nil]; rfl
  | cons s rest ih =>
    refine (ih _).trans ?_
    rw [List.map_append, List.append_assoc]
    rfl

/-- Every attempt came out as the network would have it. -/
def Honest (transport : Transport) (attempts : List Attempt) : Prop :=
  ∀ earlier a, earlier ++ [a] <+: attempts → a.outcome = transport earlier a.sent

theorem honest_handOver {transport : Transport} {attempts : List Attempt}
    (honest : Honest transport attempts) (sent : List Sent) :
    Honest transport (handOver transport attempts sent) := by
  induction sent generalizing attempts with
  | nil => exact honest
  | cons s rest ih =>
    refine ih fun earlier a h => ?_
    rcases List.prefix_concat_iff.mp h with last | before
    · obtain ⟨rfl, same⟩ := List.append_inj' last rfl
      cases same
      rfl
    · exact honest earlier a before

variable [Mail α]

def round (c : Courier α) (g : Group) : List (Address × Bytes) := c.outbox.round g.addressOf

/-- The loop takes one step. -/
def turned (c : Courier α) (g : Group) (transport : Transport) (pump next : Pump)
    (mail : List (Address × Bytes)) : Courier α :=
  { c with
    loop := some next
    attempts := handOver transport c.attempts (Sent.all c.now mail)
    history := if pump.phase = .ready then c.history ++ [.round c.now (c.round g)] else c.history }

variable [Timer] (g : Group) (base ceiling : Span) (transport : Transport)

inductive Step : Courier α → Courier α → Prop where
  | deed (c) {d} (allowed : c.outbox.Allows g d) :
      Step c { c with outbox := c.outbox.perform d, history := c.history ++ [.deed c.now d] }
  | begin (c) {pump} (idle : c.loop = none) (started : Pump.start base ceiling = .ok pump) :
      Step c { c with loop := some pump, history := c.history ++ [.begun c.now] }
  | call (c) {pump calls} (running : c.loop = some pump)
      (outstanding : c.outbox.calls = calls + 1) :
      Step c { c with outbox := { c.outbox with calls }, loop := some pump.call }
  | turn (c) {pump next mail} (running : c.loop = some pump)
      (rung : ∀ due, pump.due? = some due → Instant.roundUp due ≤ c.now)
      (moved : pump.step? c.now (c.round g) = some (next, mail)) :
      Step c (c.turned g transport pump next mail)
  | wait (c) {later} (forward : c.now ≤ later)
      (rests : ∀ pump, c.loop = some pump → c.outbox.calls = 0 ∧ pump.Rests later) :
      Step c { c with now := later }

inductive Reachable : Courier α → Prop where
  | start : Reachable .start
  | next {c d} : Reachable c → Step g base ceiling transport c d → Reachable d

end Courier

end Concord
