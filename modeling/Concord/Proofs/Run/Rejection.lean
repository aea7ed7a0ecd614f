import Concord.Proofs.Run.Draining
import Concord.Time.Millis

/-!
Datagrams that a member rejects leave no trace. Two runs of which one has such datagrams in addition
stay alike: their members differ only in what is still on its way in, and from that the rejected
records are dropped before anything is drawn or looked at.
-/

namespace Concord

namespace Node

/-- Whether a record is refused: no member has its address, or it does not speak for the member
that has. -/
def refuses (n : Node) (source : Address) (r : Record) : Bool :=
  match n.group.memberAt source with
  | none => true
  | some member => !n.admits member r

/-- Whether a datagram holds no record, or one that is refused. -/
def rejects (n : Node) (source : Address) (bytes : Bytes) : Bool :=
  match Record.decode bytes with
  | .error _ => true
  | .ok r => n.refuses source r

/-- The group alone decides what is refused. -/
theorem refuses_congr {n k : Node} (same : k.group = n.group) (source : Address) (r : Record) :
    k.refuses source r = n.refuses source r := by
  cases n
  cases k
  cases same
  rfl

theorem receive_of_refuses {n : Node} {source : Address} {r : Record}
    (refused : n.refuses source r = true) (draws : Draws) :
    n.receive draws source r = (n, ⟨[], none⟩, draws) := by
  unfold refuses at refused
  unfold receive
  split
  · rfl
  · rename_i member here
    rw [here, Bool.not_eq_true'] at refused
    rw [if_neg (Bool.eq_false_iff.mp refused)]

/-- The records that are not refused. -/
def heeded (n : Node) (records : List (Address × Record)) : List (Address × Record) :=
  records.filter fun x => !n.refuses x.1 x.2

theorem heeded_append (n : Node) (first rest : List (Address × Record)) :
    n.heeded (first ++ rest) = n.heeded first ++ n.heeded rest := List.filter_append first rest

theorem heeded_of_rejects {n : Node} {source : Address} {bytes : Bytes}
    (rejected : n.rejects source bytes = true) :
    n.heeded (Arrival.datagram source bytes).record?.toList = [] := by
  unfold rejects at rejected
  cases holds : Record.decode bytes with
  | error e => simp [Arrival.record?, holds, heeded]
  | ok r =>
    rw [holds] at rejected
    simp [Arrival.record?, holds, heeded, rejected]

end Node

namespace LiveNode

theorem heed_of_refuses {l : LiveNode} {x : Address × Record}
    (refused : l.node.refuses x.1 x.2 = true) (now : Instant) : l.heed now x = l := by
  unfold heed
  rw [Node.receive_of_refuses refused]
  simp [answer]

/-- Refused records might as well not have arrived. -/
theorem heedAll_heeded {n : Node} {l : LiveNode} (group : l.node.group = n.group) (now : Instant)
    (records : List (Address × Record)) :
    l.heedAll now (n.heeded records) = l.heedAll now records := by
  induction records generalizing l with
  | nil => rfl
  | cons x rest ih =>
    have first : l.heedAll now (x :: rest) = (l.heed now x).heedAll now rest := rfl
    have still : (l.heed now x).node.group = n.group :=
      (l.node.receive_frame l.draws x.1 x.2).1.trans group
    rw [first, ← ih still]
    cases refused : n.refuses x.1 x.2 with
    | true =>
      have dropped : n.heeded (x :: rest) = n.heeded rest := by simp [Node.heeded, refused]
      have inert := heed_of_refuses ((Node.refuses_congr group x.1 x.2).trans refused) now
      rw [dropped, inert]
    | false =>
      have kept : n.heeded (x :: rest) = x :: n.heeded rest := by simp [Node.heeded, refused]
      rw [kept]
      rfl

/-- Nothing holds the engine up. -/
structure Engine.Calm (e : Engine) : Prop where
  calm : e.reply = none
  isOpen : e.intake.Open

theorem Engine.Calm.arrive {e : Engine} (h : e.Calm) (source : Address) (bytes : Bytes) :
    Engine.Calm { e with intake := e.intake.arrive (.datagram source bytes) } :=
  ⟨h.calm, h.isOpen.arrive source bytes⟩

/-- Two engines that will hand over the same records, apart from refused ones. -/
structure Engine.Alike (n : Node) (e f : Engine) : Prop where
  left : e.Calm
  right : f.Calm
  pending : n.heeded f.intake.pending = n.heeded e.intake.pending
  room : f.intake.room = e.intake.room
  messagePump : f.messagePump = e.messagePump
  decisionPump : f.decisionPump = e.decisionPump

theorem Engine.Calm.alike {e : Engine} (h : e.Calm) (n : Node) : e.Alike n e :=
  ⟨h, h, rfl, rfl, rfl, rfl⟩

/-- Members that differ at most in what is still on its way in. -/
inductive Alike (n : Node) : LiveNode → LiveNode → Prop where
  | ended (l : LiveNode) (outcome : Outcome) : l.stage = .over outcome → Alike n l l
  | driven (l : LiveNode) (e f : Engine) :
    l.node.group = n.group → l.Prompt → e.Alike n f → Alike n (l.driven e) (l.driven f)

/-- What reaches a member from outside, and that it goes on at an instant. -/
inductive Stimulus where
  | multicast (payload : UInt32)
  | remove (member : MemberId)
  | datagram (source : Address) (bytes : Bytes)
  | settle (now : Instant)

def meet [Timer] (l : LiveNode) : Stimulus → LiveNode
  | .multicast payload => (l.multicast payload).1
  | .remove member => l.remove member
  | .datagram source bytes => l.arrive (.datagram source bytes)
  | .settle now => l.settle now

def run [Timer] (l : LiveNode) (stimuli : List Stimulus) : LiveNode := stimuli.foldl meet l

theorem arrive_over {l : LiveNode} {outcome : Outcome} (ended : l.stage = .over outcome)
    (a : Arrival) : l.arrive a = l := by rw [arrive, ended]

theorem multicast_driven (l : LiveNode) (e : Engine) (payload : UInt32) :
    ((l.driven e).multicast payload).1 = (l.multicast payload).1.driven e := by
  unfold multicast driven
  dsimp only
  split <;> rfl

theorem multicast_frame (l : LiveNode) (payload : UInt32) :
    (l.multicast payload).1.node.group = l.node.group ∧
      (l.multicast payload).1.node.faults = l.node.faults ∧
      (l.multicast payload).1.stage = l.stage := by
  rw [multicast, Node.tryMulticast_eq]
  cases outcome : l.node.multicast payload with
  | error e => exact ⟨rfl, rfl, rfl⟩
  | ok made =>
    obtain ⟨group, faults⟩ := Node.multicast_frame outcome
    exact ⟨group, faults, rfl⟩

theorem sendRounds_driven [Timer] (now : Instant) (l : LiveNode) (e : Engine) : ∃ k f,
    (l.driven e).sendRounds now = driven k f ∧ k.node.group = l.node.group ∧
      k.node.faults = l.node.faults ∧ f.reply = e.reply ∧ f.intake = e.intake :=
  ⟨(l.driven e).sendRounds now, ⟨e.intake, e.reply, _, _⟩, rfl, rfl, rfl, rfl, rfl⟩

namespace Alike

variable {n : Node} {l k : LiveNode}

theorem agree (h : Alike n l k) : k.node = l.node ∧ k.draws = l.draws ∧
    k.delivered = l.delivered ∧ k.sent = l.sent := by
  cases h with
  | ended => exact ⟨rfl, rfl, rfl, rfl⟩
  | driven => exact ⟨rfl, rfl, rfl, rfl⟩

/-- Both are next due at the same time. -/
theorem due_eq (h : Alike n l k) : k.due? = l.due? := by
  cases h with
  | ended => rfl
  | driven l e f group prompt alike =>
    have left : (l.driven e).due? = earlier? (e.reply.map Sent.time)
        (earlier? e.messagePump.due? e.decisionPump.due?) := rfl
    have right : (l.driven f).due? = earlier? (f.reply.map Sent.time)
        (earlier? f.messagePump.due? f.decisionPump.due?) := rfl
    rw [left, right, alike.left.calm, alike.right.calm, alike.messagePump, alike.decisionPump]

theorem multicast (h : Alike n l k) (payload : UInt32) :
    Alike n (l.multicast payload).1 (k.multicast payload).1 := by
  cases h with
  | ended l outcome ended => exact .ended _ outcome ((l.multicast_frame payload).2.2.trans ended)
  | driven l e f group prompt alike =>
    obtain ⟨group', faults, -⟩ := l.multicast_frame payload
    rw [multicast_driven, multicast_driven]
    refine .driven _ e f (group'.trans group) ?_ alike
    rw [Prompt, faults]
    exact prompt

theorem remove (h : Alike n l k) (member : MemberId) :
    Alike n (l.remove member) (k.remove member) := by
  cases h with
  | ended l outcome ended => exact .ended _ outcome ended
  | driven l e f group prompt alike =>
    obtain ⟨group', faults⟩ := l.node.remove_frame member
    refine .driven (l.remove member) e f (group'.trans group) ?_ alike
    rw [Prompt, LiveNode.remove, faults]
    exact prompt

theorem arrive (h : Alike n l k) (source : Address) (bytes : Bytes) :
    Alike n (l.arrive (.datagram source bytes)) (k.arrive (.datagram source bytes)) := by
  cases h with
  | ended l outcome ended =>
    rw [arrive_over ended]
    exact .ended l outcome ended
  | driven l e f group prompt alike =>
    refine .driven l _ _ group prompt ⟨alike.left.arrive source bytes,
      alike.right.arrive source bytes, ?_, alike.room, alike.messagePump, alike.decisionPump⟩
    rw [Intake.pending_arrive, Intake.pending_arrive, Node.heeded_append, Node.heeded_append,
      alike.pending]

/-- A rejected datagram may arrive at one of the two only. -/
theorem insert (h : Alike n l k) {source : Address} {bytes : Bytes}
    (rejected : n.rejects source bytes = true) : Alike n l (k.arrive (.datagram source bytes)) := by
  cases h with
  | ended l outcome ended =>
    rw [arrive_over ended]
    exact .ended l outcome ended
  | driven l e f group prompt alike =>
    refine .driven l _ _ group prompt ⟨alike.left, alike.right.arrive source bytes, ?_, alike.room,
      alike.messagePump, alike.decisionPump⟩
    rw [Intake.pending_arrive, Node.heeded_append, Node.heeded_of_rejects rejected,
      List.append_nil, alike.pending]

/-- At the next instant all differences are gone. -/
theorem settle_eq [Timer] (h : Alike n l k) (now : Instant) : k.settle now = l.settle now := by
  cases h with
  | ended => rfl
  | driven l e f group prompt alike =>
    have drained : { f with intake := Intake.start f.intake.room } =
        { e with intake := Intake.start e.intake.room } := by
      obtain ⟨⟨calm, -⟩, ⟨calm', -⟩, -, room, messagePump, decisionPump⟩ := alike
      rw [calm, calm', room, messagePump, decisionPump]
    rw [LiveNode.settle_eq prompt alike.left.calm alike.left.isOpen,
      LiveNode.settle_eq prompt alike.right.calm alike.right.isOpen,
      ← heedAll_heeded group now f.intake.pending, alike.pending, heedAll_heeded group, drained]

theorem settle [Timer] (h : Alike n l k) (now : Instant) :
    Alike n (l.settle now) (k.settle now) := by
  rw [h.settle_eq now]
  cases h with
  | ended l outcome ended =>
    have still : l.settle now = l := by rw [LiveNode.settle, ended]
    rw [still]
    exact .ended l outcome ended
  | driven l e f group prompt alike =>
    obtain ⟨group', faults'⟩ := l.heedAll_frame now e.intake.pending
    obtain ⟨k, c, sent, group'', faults'', reply, intake⟩ :=
      sendRounds_driven now (l.heedAll now e.intake.pending)
        { e with intake := .start e.intake.room }
    have calm : c.Calm := by
      refine ⟨reply.trans alike.left.calm, ?_⟩
      rw [intake]
      exact Intake.open_start alike.left.isOpen.room
    rw [LiveNode.settle_eq prompt alike.left.calm alike.left.isOpen, sent]
    refine .driven k c c ((group''.trans group').trans group) ?_ (calm.alike n)
    rw [Prompt, faults'', faults']
    exact prompt

theorem meet [Timer] (h : Alike n l k) (s : Stimulus) : Alike n (l.meet s) (k.meet s) := by
  cases s with
  | multicast payload => exact h.multicast payload
  | remove member => exact h.remove member
  | datagram source bytes => exact h.arrive source bytes
  | settle now => exact h.settle now

end Alike

/-- The second run has what the first one has, and rejected datagrams in addition, anywhere. -/
inductive Interspersed (n : Node) : List Stimulus → List Stimulus → Prop where
  | nil : Interspersed n [] []
  | keep (s : Stimulus) {quiet noisy : List Stimulus} :
    Interspersed n quiet noisy → Interspersed n (s :: quiet) (s :: noisy)
  | insert {source : Address} {bytes : Bytes} {quiet noisy : List Stimulus} :
    n.rejects source bytes = true → Interspersed n quiet noisy →
      Interspersed n quiet (.datagram source bytes :: noisy)

theorem Alike.run [Timer] {n : Node} {l k : LiveNode} (h : Alike n l k) {quiet noisy : List Stimulus}
    (more : Interspersed n quiet noisy) : Alike n (l.run quiet) (k.run noisy) := by
  induction more generalizing l k with
  | nil => exact h
  | keep s _ ih => exact ih (h.meet s)
  | insert rejected _ ih => exact ih (h.insert rejected)

theorem startEngine_calm {settings : Settings} {e : Engine} (ok : startEngine settings = .ok e) :
    e.Calm := by
  unfold startEngine at ok
  split at ok
  · cases ok
  · rename_i enough
    have room : settings.recordRoom ≠ 0 := by
      intro none
      rw [checkRoom, if_pos none] at enough
      cases enough
    split at ok <;> cases ok
    exact ⟨rfl, Intake.open_start (Nat.pos_of_ne_zero room)⟩

theorem alike_start {settings : Settings} {g : Group} {draws : Draws} {l : LiveNode}
    (started : start settings g draws = .ok l) (prompt : settings.replyDelay.isZero = true) :
    Alike l.node l l := by
  unfold start at started
  split at started
  · cases started
  · rename_i node ok
    have faults : node.faults = .ofSettings settings := by rw [Node.start_eq_ok ok]
    cases engine : startEngine settings with
    | error e =>
      simp only [engine] at started
      cases started
      exact .ended _ .broken rfl
    | ok e =>
      simp only [engine] at started
      cases started
      refine .driven ⟨node, draws, .running e, [], []⟩ e e rfl ?_ ((startEngine_calm engine).alike _)
      rw [Prompt, faults]
      exact prompt

/-- A member that holds no reply back drops rejected datagrams without a trace: wherever they arrive
in a run, its state, what it draws, delivers and sends, and when it goes on by itself are the same
as without them. -/
theorem rejection_traceless [Timer] {settings : Settings} {g : Group} {draws : Draws} {l : LiveNode}
    (started : LiveNode.start settings g draws = .ok l)
    (prompt : settings.replyDelay.isZero = true) {quiet noisy : List Stimulus}
    (more : Interspersed l.node quiet noisy) :
    (l.run noisy).node = (l.run quiet).node ∧ (l.run noisy).draws = (l.run quiet).draws ∧
      (l.run noisy).delivered = (l.run quiet).delivered ∧
      (l.run noisy).sent = (l.run quiet).sent ∧ (l.run noisy).due? = (l.run quiet).due? ∧
      ∀ now, (l.run noisy).settle now = (l.run quiet).settle now := by
  have alike := (alike_start started prompt).run more
  obtain ⟨node, drawn, delivered, sent⟩ := alike.agree
  exact ⟨node, drawn, delivered, sent, alike.due_eq, alike.settle_eq⟩

/-- No record, a record from a stranger, and a proposal in another member's name arrive around the
proposal that decides a message. -/
theorem rejection_traceless_of_proposal :
    let g : Group := ⟨⟨1⟩, Group.onLoopback 2⟩
    let n : Node := ⟨g, .ofSettings .standard, .start g.self g.ids, .empty, .empty⟩
    let pump : Pump :=
      ⟨.ready, ⟨.ofMillis 200, .ofMillis 200, .ofSeconds 4, by decide, by decide⟩, false⟩
    let l : LiveNode := ⟨n, .ofList [], .running ⟨.start 1024, none, pump, pump⟩, [], []⟩
    let proposal := Record.encode (.proposal ⟨⟨⟨1⟩, 1⟩, ⟨1, ⟨2⟩⟩⟩)
    let forged := Record.encode (.proposal ⟨⟨⟨1⟩, 1⟩, ⟨9, ⟨1⟩⟩⟩)
    let quiet := [.multicast 7, .settle 0, .datagram (.loopback 2) proposal, .settle 0]
    let noisy := [.multicast 7, .datagram (.loopback 2) [1, 2, 3], .settle 0,
      .datagram (.loopback 9) proposal, .datagram (.loopback 2) forged,
      .datagram (.loopback 2) proposal, .settle 0]
    start .standard g (.ofList []) = .ok l ∧ Settings.standard.replyDelay.isZero = true ∧
      Interspersed l.node quiet noisy ∧ (l.run noisy).node = (l.run quiet).node ∧
      (l.run noisy).delivered = [⟨⟨⟨1⟩, 1⟩, 7⟩] := by
  intro g n pump l proposal forged quiet noisy
  have started : start .standard g (.ofList []) = .ok l := rfl
  have prompt : Settings.standard.replyDelay.isZero = true := rfl
  have more : Interspersed l.node quiet noisy :=
    .keep _ (.insert (by decide) (.keep _ (.insert (by decide) (.insert (by decide)
      (.keep _ (.keep _ .nil))))))
  obtain ⟨node, -, delivered, -⟩ := rejection_traceless started prompt more
  refine ⟨started, prompt, more, node, ?_⟩
  rw [delivered]
  decide +kernel

end LiveNode

end Concord
