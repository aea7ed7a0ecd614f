import Concord.Proofs.Retry.Courier
import Concord.Time.Millis
import Mathlib.Logic.Relation

/-!
A sending loop among those who use its outbox, in pieces as small as the locks allow. The loop looks
at the outbox, and acts on what it has seen later on. Something is put, and the call that it makes
necessary follows later on. Anything may come in between, and a pause takes as long as it likes.
-/

namespace Concord

variable {α : Type} [Mail α]

/-- `seen` is the round that the loop has taken, until it acts on it. -/
structure Dispatch (α : Type) where
  outbox : Outbox α
  loop : Pump
  seen : Option (List (Address × Bytes))

namespace Dispatch

/-- Only where the loop is about to act on a round it matters which one. -/
inductive Step [Timer] (g : Group) : Dispatch α → Dispatch α → Prop where
  | deed (s) {d} (addressed : d.Addressed g) : Step g s { s with outbox := s.outbox.perform d }
  | call (s) {calls} (outstanding : s.outbox.calls = calls + 1) :
      Step g s { s with outbox := { s.outbox with calls }, loop := s.loop.call }
  | look (s) (ready : s.loop.phase = .ready) (unseen : s.seen = none) :
      Step g s { s with seen := some (s.outbox.round g.addressOf) }
  | turn (s) (now round) {next mail} (seen : s.loop.phase = .ready → s.seen = some round)
      (moved : s.loop.step? now round = some (next, mail)) :
      Step g s { s with loop := next, seen := none }

inductive Reachable [Timer] (g : Group) (base ceiling : Span) : Dispatch α → Prop where
  | start {pump} (started : Pump.start base ceiling = .ok pump) :
      Reachable g base ceiling ⟨.empty, pump, none⟩
  | next {s t} : Reachable g base ceiling s → Step g s t → Reachable g base ceiling t

/-- The loop waits to be called, or has seen nothing to send and is about to wait. -/
def Dozes (s : Dispatch α) : Prop :=
  s.seen = some [] ∨ s.loop.phase = .idle ∨ s.loop.phase = .waiting

/-- As long as there is something to send, a loop that dozes is called or about to be called. -/
structure Alert (g : Group) (s : Dispatch α) : Prop where
  awaited : ∀ x ∈ s.outbox.parcels, ∃ member, member ∈ x.waiting
  known : ∀ item member, s.outbox.Owes item member → member ∈ g.ids
  fresh : s.seen ≠ none → s.loop.phase = .ready
  called : s.Dozes → s.outbox.parcels ≠ [] → 0 < s.outbox.calls ∨ s.loop.called = true

variable {g : Group} {base ceiling : Span} {s t : Dispatch α}

omit [Mail α] in
/-- A call wakes the loop if it waits; else the loop keeps it. -/
theorem Alert.call (h : s.Alert g) {calls : Nat} :
    Alert g { s with outbox := { s.outbox with calls }, loop := s.loop.call } := by
  rcases s.loop.call_cases with ⟨waits, woken⟩ | ⟨-, kept⟩
  · have unseen : s.seen = none := by
      by_contra seen
      cases waits.symm.trans (h.fresh seen)
    rw [woken]
    refine ⟨h.awaited, h.known, fun _ => rfl, fun dozes _ => ?_⟩
    rcases dozes with nothing | idle | waiting
    · cases unseen.symm.trans nothing
    · cases idle
    · cases waiting
  · rw [kept]
    exact ⟨h.awaited, h.known, h.fresh, fun _ _ => .inr rfl⟩

/-- Only when there is nothing to send the loop dozes off. -/
theorem Alert.look (h : s.Alert g) (ready : s.loop.phase = .ready) :
    Alert g { s with seen := some (s.outbox.round g.addressOf) } := by
  refine ⟨h.awaited, h.known, fun _ => ready, fun dozes something => absurd ?_ something⟩
  rcases dozes with nothing | idle | waiting
  · exact Outbox.parcels_eq_nil_of_round h.awaited
      (fun item member owes => Group.exists_addressOf (h.known item member owes))
      (Option.some.inj nothing)
  · cases ready.symm.trans idle
  · cases ready.symm.trans waiting

section

variable [Timer]

omit [Mail α] in
theorem Alert.turn (h : s.Alert g) {now : Instant} {round mail : List (Address × Bytes)}
    {next : Pump} (seen : s.loop.phase = .ready → s.seen = some round)
    (moves : s.loop.Moves now round next mail) : Alert g { s with loop := next, seen := none } := by
  refine ⟨h.awaited, h.known, fun seen => absurd rfl seen, fun dozes something => ?_⟩
  obtain ⟨outbox, loop, taken⟩ := s
  cases moves with
  | stop nothing => exact h.called (.inl (nothing ▸ seen rfl)) something
  | wait => exact h.called (.inr (.inl rfl)) something
  | take | send | wake | again => rcases dozes with nothing | idle | waiting <;> contradiction

theorem Alert.step (h : s.Alert g) (step : Step g s t) : t.Alert g := by
  cases step with
  | deed addressed =>
    exact ⟨Outbox.awaited_perform h.awaited _, Outbox.known_perform h.known addressed, h.fresh,
      fun dozes => Outbox.called_perform (h.called dozes) _⟩
  | call => exact h.call
  | look ready => exact h.look ready
  | turn _ _ seen moved => exact h.turn seen (Pump.moves_of_step? moved)

theorem Reachable.alert (h : s.Reachable g base ceiling) : s.Alert g := by
  induction h with
  | start started =>
    refine ⟨fun _ hx => ?_, fun item member owes => ?_, fun seen => ?_, fun _ something => ?_⟩
    · cases hx
    · exact absurd owes (Outbox.not_owes_empty item member)
    · exact absurd rfl seen
    · exact absurd rfl something
  | next _ step ih => exact ih.step step

theorem Reachable.trans (h : s.Reachable g base ceiling)
    (steps : Relation.ReflTransGen (Step g) s t) : t.Reachable g base ceiling := by
  induction steps with
  | refl => exact h
  | tail _ step ih => exact ih.next step

/-- No call is lost. A loop that dozes, with no call kept for it and none still to be made, has
nothing to send. -/
theorem no_call_lost (h : s.Reachable g base ceiling) (dozes : s.Dozes)
    (unkept : s.loop.called = false) (made : s.outbox.calls = 0) : s.outbox.parcels = [] := by
  by_contra something
  rcases h.alert.called dozes something with calls | kept
  · exact Nat.lt_irrefl 0 (made ▸ calls)
  · cases unkept.symm.trans kept

end

/-- A message is put, called for and acknowledged after the loop has looked and before it acts. The
kept call lets it look once more before it waits. -/
theorem no_call_lost_of_acknowledged :
    let g : Group := ⟨⟨1⟩, Group.onLoopback 2⟩
    let pause : Span := .ofMillis 1
    let m : Message := ⟨⟨⟨1⟩, 1⟩, 1⟩
    ∃ looked rests : Dispatch Message,
      let put := { looked with outbox := looked.outbox.perform (.put m [⟨2⟩]) }
      let called := { put with outbox := { put.outbox with calls := 0 }, loop := put.loop.call }
      let acknowledged := { called with outbox := called.outbox.perform (.acknowledge m.id ⟨2⟩) }
      (looked.Reachable g pause pause ∧ looked.seen = some []) ∧
      (Step g looked put ∧ Step g put called ∧ Step g called acknowledged) ∧
      (called.loop.called = true ∧ called.outbox.inFlight = [m.id] ∧
        acknowledged.outbox.parcels = []) ∧
      Relation.ReflTransGen (Step g) acknowledged rests ∧ rests.Reachable g pause pause ∧
      rests.loop.phase = .waiting ∧ rests.loop.called = false ∧ rests.outbox.calls = 0 ∧
      rests.outbox.parcels = [] := by
  intro g pause m
  let schedule : Schedule := ⟨pause, pause, pause, by decide, by decide⟩
  let looked : Dispatch Message := ⟨.empty, ⟨.ready, schedule, false⟩, some []⟩
  let rests : Dispatch Message := ⟨.empty, ⟨.waiting, schedule, false⟩, none⟩
  refine ⟨looked, rests, ?_⟩
  intro put called acknowledged
  have reached : looked.Reachable g pause pause := (Reachable.start rfl).next (.look _ rfl rfl)
  have addressed : Deed.Addressed g (.put m [⟨2⟩]) := by
    rintro _ _ ⟨⟩
    decide
  have first : Step g looked put := .deed _ addressed
  have second : Step g put called := .call _ rfl
  have third : Step g called acknowledged := .deed _ nofun
  have idle : Step g acknowledged ⟨.empty, ⟨.idle, schedule, true⟩, none⟩ :=
    .turn _ 0 [] (fun _ => rfl) rfl
  have again : Step g (⟨.empty, ⟨.idle, schedule, true⟩, none⟩ : Dispatch Message)
      ⟨.empty, ⟨.ready, schedule, false⟩, none⟩ := .turn _ 0 [] nofun rfl
  have empty : Step g ⟨.empty, ⟨.ready, schedule, false⟩, none⟩ looked := .look _ rfl rfl
  have about : Step g looked ⟨.empty, ⟨.idle, schedule, false⟩, none⟩ :=
    .turn _ 0 [] (fun _ => rfl) rfl
  have waiting : Step g (⟨.empty, ⟨.idle, schedule, false⟩, none⟩ : Dispatch Message) rests :=
    .turn _ 0 [] nofun rfl
  have steps : Relation.ReflTransGen (Step g) acknowledged rests :=
    .head idle (.head again (.head empty (.head about (.single waiting))))
  have settled : rests.Reachable g pause pause :=
    (((reached.next first).next second).next third).trans steps
  exact ⟨⟨reached, rfl⟩, ⟨first, second, third⟩, ⟨rfl, rfl, rfl⟩, steps, settled, rfl, rfl, rfl,
    no_call_lost settled (.inr (.inr rfl)) rfl rfl⟩

end Dispatch

variable [Timer]

/-- The loop looks, if it has to, and acts at once. -/
theorem Dispatch.Reachable.turn {g : Group} {base ceiling : Span} {o : Outbox α} {loop next : Pump}
    (h : Reachable g base ceiling ⟨o, loop, none⟩) {now : Instant} {mail : List (Address × Bytes)}
    (moved : loop.step? now (o.round g.addressOf) = some (next, mail)) :
    Reachable g base ceiling ⟨o, next, none⟩ := by
  by_cases ready : loop.phase = .ready
  · exact ((h.next (.look _ ready rfl)).next (.turn _ now _ (fun _ => rfl) moved) :)
  · exact (h.next (.turn _ now _ (fun phase => absurd phase ready) moved) :)

/-- A courier's loop looks and acts in one go, and its clock does not run in between, so its runs are
among those of a dispatch. -/
theorem Courier.Reachable.dispatch {g : Group} {base ceiling : Span} {transport : Transport}
    {c : Courier α} (h : Courier.Reachable g base ceiling transport c) {pump : Pump}
    (working : c.loop = some pump ∨ c.loop = none ∧ Pump.start base ceiling = .ok pump) :
    Dispatch.Reachable g base ceiling ⟨c.outbox, pump, none⟩ := by
  induction h generalizing pump with
  | start =>
    rcases working with running | ⟨-, started⟩
    · cases running
    · exact .start started
  | next _ step ih =>
    cases step with
    | deed allowed => exact (ih working).next (.deed _ allowed.2)
    | begin idle started =>
      rcases working with ⟨⟨⟩⟩ | ⟨running, -⟩
      · exact ih (.inr ⟨idle, started⟩)
      · cases running
    | call running outstanding =>
      rcases working with ⟨⟨⟩⟩ | ⟨idle, -⟩
      · exact ((ih (.inl running)).next (.call _ outstanding) :)
      · cases idle
    | turn running _ moved =>
      rcases working with ⟨⟨⟩⟩ | ⟨idle, -⟩
      · exact (ih (.inl running)).turn moved
      · cases idle
    | wait => exact ih working

end Concord
