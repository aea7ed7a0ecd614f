import Concord.Proofs.Node.Basic
import Concord.Run.LiveNode

/-!
A member that holds no reply back. Nothing keeps it from handling what has arrived, so at every
instant it handles all of it in the order of arrival, and its intake is empty afterwards.
-/

namespace Concord

/-- The record that a datagram holds, if it holds one. -/
def Arrival.record? : Arrival → Option (Address × Record)
  | .datagram source bytes =>
    match Record.decode bytes with
    | .ok r => some (source, r)
    | .error _ => none
  | _ => none

namespace Intake

/-- The records that have arrived and are still to be handled, in order. -/
def pending (i : Intake) : List (Address × Record) :=
  i.queue ++ (i.held.toList ++ i.arrivals.filterMap Arrival.record?)

/-- How much the receiving loop has still to do at most. -/
def load (i : Intake) : Nat := 2 * i.arrivals.length + i.held.toList.length

/-- Nothing ends the receiving loop. -/
structure Open (i : Intake) : Prop where
  datagrams : ∀ a ∈ i.arrivals, ∃ source bytes, a = .datagram source bytes
  room : 0 < i.room

/-- The receiving loop goes on, and loses no record. -/
structure Onward (i k : Intake) : Prop where
  isOpen : k.Open
  pending : k.pending = i.pending
  room : k.room = i.room
  load : k.load < i.load

theorem Onward.trans {i j k : Intake} (first : i.Onward j) (second : j.Onward k) : i.Onward k where
  isOpen := second.isOpen
  pending := second.pending.trans first.pending
  room := second.room.trans first.room
  load := second.load.trans first.load

theorem open_start {room : Nat} (h : 0 < room) : (Intake.start room).Open where
  datagrams _ ha := by cases ha
  room := h

theorem Open.arrive {i : Intake} (h : i.Open) (source : Address) (bytes : Bytes) :
    (i.arrive (.datagram source bytes)).Open where
  datagrams a ha := by
    rcases List.mem_append.mp ha with old | new
    · exact h.datagrams a old
    · exact ⟨source, bytes, List.mem_singleton.mp new⟩
  room := h.room

theorem pending_arrive (i : Intake) (a : Arrival) :
    (i.arrive a).pending = i.pending ++ a.record?.toList := by
  simp only [pending, arrive, List.filterMap_append, List.filterMap_cons, List.filterMap_nil,
    List.append_assoc]
  cases a.record? <;> rfl

theorem Open.step?_cases {i : Intake} (h : i.Open) :
    i.step? = none ∨ ∃ k, i.step? = some (.ok k) ∧ i.Onward k := by
  unfold step?
  split
  · rename_i r held
    split
    · refine .inr ⟨_, rfl, ⟨h.datagrams, h.room⟩, ?_, rfl, ?_⟩
      · simp [pending, held]
      · simp [load, held]
    · exact .inl rfl
  · rename_i held
    split
    · exact .inl rfl
    · rename_i rest found
      obtain ⟨source, bytes, other⟩ := h.datagrams .cancel (by simp [found])
      cases other
    · rename_i reason rest found
      obtain ⟨source, bytes, other⟩ := h.datagrams (.failure reason) (by simp [found])
      cases other
    · rename_i source bytes rest found
      have left : ∀ a ∈ rest, ∃ source bytes, a = .datagram source bytes :=
        fun a ha => h.datagrams a (by rw [found]; exact List.mem_cons_of_mem _ ha)
      split
      · rename_i r holds
        refine .inr ⟨_, rfl, ⟨left, h.room⟩, ?_, rfl, ?_⟩
        · simp [pending, held, found, Arrival.record?, holds]
        · simp [load, held, found]
          omega
      · rename_i e holds
        refine .inr ⟨_, rfl, ⟨left, h.room⟩, ?_, rfl, ?_⟩
        · simp [pending, held, found, Arrival.record?, holds]
        · simp [load, held, found]

/-- With an empty queue the loop can only stop for want of arrivals. -/
theorem Open.eq_start {i : Intake} (h : i.Open) (empty : i.queue = []) (stopped : i.step? = none) :
    i = .start i.room := by
  obtain ⟨arrivals, held, queue, room⟩ := i
  obtain rfl : queue = [] := empty
  cases held with
  | some r =>
    have stays : (⟨arrivals, some r, [], room⟩ : Intake).step? =
        some (.ok ⟨arrivals, none, [r], room⟩) := if_pos h.room
    rw [stays] at stopped
    cases stopped
  | none =>
    cases arrivals with
    | nil => rfl
    | cons a rest =>
      obtain ⟨source, bytes, rfl⟩ := h.datagrams a List.mem_cons_self
      unfold step? at stopped
      dsimp only at stopped
      split at stopped <;> cases stopped

theorem Open.absorbIn {i : Intake} (h : i.Open) (fuel : Nat) :
    ∃ k, absorbIn fuel i = .ok k ∧ (k = i ∨ i.Onward k) := by
  induction fuel generalizing i with
  | zero => exact ⟨i, rfl, .inl rfl⟩
  | succ fuel ih =>
    unfold Intake.absorbIn
    rcases h.step?_cases with stopped | ⟨j, step, onward⟩
    · exact ⟨i, by rw [stopped], .inl rfl⟩
    · obtain ⟨k, absorbed, same | further⟩ := ih onward.isOpen
      · exact ⟨k, by rw [step]; exact absorbed, .inr (same ▸ onward)⟩
      · exact ⟨k, by rw [step]; exact absorbed, .inr (onward.trans further)⟩

/-- Unless the loop is at rest, it gets on. -/
theorem Open.absorb {i : Intake} (h : i.Open) :
    i.step? = none ∨ ∃ j k, i.step? = some j ∧ i.absorb = .ok k ∧ i.Onward k := by
  rcases h.step?_cases with stopped | ⟨j, step, onward⟩
  · exact .inl stopped
  · obtain ⟨k, absorbed, last⟩ := onward.isOpen.absorbIn (2 * i.arrivals.length)
    have first : i.absorb = Intake.absorbIn (2 * i.arrivals.length) j := by
      rw [Intake.absorb, steps, Intake.absorbIn, step]
    refine .inr ⟨_, k, step, first.trans absorbed, ?_⟩
    rcases last with rfl | further
    · exact onward
    · exact onward.trans further

end Intake

namespace LiveNode

/-- The datagram with the reply, if there is one and its member has an address. -/
def answer (now : Instant) (group : Group) (reaction : Reaction) : Option Sent :=
  match reaction.reply with
  | none => none
  | some (member, reply) => (group.addressOf member).map fun target => ⟨now, target, reply.encode⟩

/-- Handles a record and replies at once. -/
def heed (now : Instant) (l : LiveNode) (x : Address × Record) : LiveNode where
  node := (l.node.receive l.draws x.1 x.2).1
  draws := (l.node.receive l.draws x.1 x.2).2.2
  stage := l.stage
  delivered := l.delivered ++ (l.node.receive l.draws x.1 x.2).2.1.delivered
  sent := l.sent ++ (answer now l.node.group (l.node.receive l.draws x.1 x.2).2.1).toList

def heedAll (now : Instant) (l : LiveNode) (records : List (Address × Record)) : LiveNode :=
  records.foldl (heed now) l

/-- The member never holds a reply back. -/
def Prompt (l : LiveNode) : Prop := l.node.faults.replyDelay.isZero = true

theorem Prompt.heed {l : LiveNode} (h : l.Prompt) (now : Instant) (x : Address × Record) :
    (l.heed now x).Prompt := by
  have kept := (l.node.receive_frame l.draws x.1 x.2).2
  rw [Prompt, LiveNode.heed, kept]
  exact h

/-- A member whose loops are in a certain state. -/
def driven (l : LiveNode) (e : Engine) : LiveNode := { l with stage := .running e }

theorem heedAll_append (now : Instant) (l : LiveNode) (first rest : List (Address × Record)) :
    l.heedAll now (first ++ rest) = (l.heedAll now first).heedAll now rest := List.foldl_append

theorem heedAll_frame (now : Instant) (l : LiveNode) (records : List (Address × Record)) :
    (l.heedAll now records).node.group = l.node.group ∧
      (l.heedAll now records).node.faults = l.node.faults := by
  induction records generalizing l with
  | nil => exact ⟨rfl, rfl⟩
  | cons x rest ih =>
    obtain ⟨group, faults⟩ := ih (l.heed now x)
    obtain ⟨group', faults'⟩ := l.node.receive_frame l.draws x.1 x.2
    exact ⟨group.trans group', faults.trans faults'⟩

variable [Timer]

theorem handleOne_eq {l : LiveNode} (h : l.Prompt) (now : Instant) (e : Engine) (source : Address)
    (r : Record) : l.handleOne now e source r = (l.heed now (source, r)).driven e := by
  obtain ⟨group, faults⟩ := l.node.receive_frame l.draws source r
  unfold handleOne heed answer driven
  rw [← group]
  rcases received : l.node.receive l.draws source r with ⟨node, ⟨delivered, reply⟩, draws⟩
  rw [received] at faults
  cases reply with
  | none => simp
  | some reply =>
    obtain ⟨member, record⟩ := reply
    have hold : node.faults.holds draws = (.zero, draws) := by
      rw [Faults.holds, faults]
      exact if_pos h
    have none : Span.zero.isZero = true := rfl
    simp only [hold, none, if_true]
    cases node.group.addressOf member with
    | none => simp
    | some target => rfl

section Drain

variable {now : Instant} {l : LiveNode} {e : Engine}

theorem attend_eq (h : l.Prompt) (calm : e.reply = none) {fuel : Nat}
    (enough : e.intake.queue.length ≤ fuel) :
    (l.driven e).attend now fuel =
      (l.heedAll now e.intake.queue).driven { e with intake := { e.intake with queue := [] } } := by
  obtain ⟨⟨arrivals, held, queue, room⟩, reply, messagePump, decisionPump⟩ := e
  obtain rfl : reply = none := calm
  induction queue generalizing l fuel with
  | nil => cases fuel <;> rfl
  | cons x rest ih =>
    cases fuel with
    | zero => cases enough
    | succ fuel =>
      let e : Engine := ⟨⟨arrivals, held, x :: rest, room⟩, none, messagePump, decisionPump⟩
      let left : Engine := ⟨⟨arrivals, held, rest, room⟩, none, messagePump, decisionPump⟩
      have first : (l.driven e).attend now (fuel + 1) =
          ((l.driven e).handleOne now left x.1 x.2).attend now fuel := rfl
      have handled : (l.driven e).handleOne now left x.1 x.2 = (l.heed now x).driven left :=
        handleOne_eq (l := l.driven e) h now left x.1 x.2
      exact (first.trans (congrArg (attend now fuel) handled)).trans
        (ih (h.heed now x) (Nat.le_of_succ_le_succ enough))

/-- What is queued already is handled before the receiving loop goes on, so the fuel has to cover
its load only. -/
theorem work_eq (h : l.Prompt) (calm : e.reply = none) (isOpen : e.intake.Open) {fuel : Nat}
    (enough : e.intake.load < fuel) :
    (l.driven e).work now fuel =
      (l.heedAll now e.intake.pending).driven { e with intake := .start e.intake.room } := by
  induction fuel generalizing l e with
  | zero => cases enough
  | succ fuel ih =>
    let left : Intake := { e.intake with queue := [] }
    have leftOpen : left.Open := ⟨isOpen.datagrams, isOpen.room⟩
    have pending : e.intake.pending = e.intake.queue ++ left.pending := rfl
    have attended : (l.driven e).attend now (e.intake.queue.length + 2) =
        (l.heedAll now e.intake.queue).driven { e with intake := left } :=
      attend_eq h calm (Nat.le_add_right _ 2)
    have still : (l.heedAll now e.intake.queue).Prompt := by
      rw [Prompt, (heedAll_frame now l _).2]
      exact h
    -- first the queue is handled, then the receiving loop gets on or is at rest for good
    rw [pending, heedAll_append, work]
    dsimp only [driven] at attended ⊢
    rw [attended]
    dsimp only
    rcases leftOpen.absorb with stopped | ⟨j, k, step, absorbed, onward⟩
    · have empty : left = .start e.intake.room := leftOpen.eq_start rfl stopped
      rw [stopped, empty]
      rfl
    · have enough : k.load < fuel := by
        have before : left.load = e.intake.load := rfl
        have less := onward.load
        omega
      have rest := ih (e := { e with intake := k }) still calm onward.isOpen enough
      rw [step, absorbed]
      rw [onward.pending, onward.room] at rest
      exact rest

/-- At every instant the member handles all that has arrived, and then sends its rounds. -/
theorem settle_eq (h : l.Prompt) (calm : e.reply = none) (isOpen : e.intake.Open) :
    (l.driven e).settle now =
      ((l.heedAll now e.intake.pending).driven
        { e with intake := .start e.intake.room }).sendRounds now := by
  have enough : e.intake.load < e.intake.steps + e.intake.queue.length + 1 := by
    have held : e.intake.held.toList.length ≤ 1 := by
      cases e.intake.held <;> simp
    unfold Intake.load Intake.steps
    omega
  exact congrArg (sendRounds now) (work_eq h calm isOpen enough)

end Drain

end LiveNode

end Concord
