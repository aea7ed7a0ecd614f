import Concord.Proofs.Order.Coherence

/-!
No message is delivered twice, whatever the calls. While a message waits, the queue knows its id.
Once it is delivered, the numbers seen of its sender keep it out if it is foreign, and an own number
is never given again.
-/

namespace Concord.Agreement

/-- What a call delivers, in order. -/
def delivers (a : Agreement) : Operation → List Message
  | .create payload =>
    match a.create payload with
    | .error _ => []
    | .ok (_, _, settlement) => settlement.toList.flatMap Settlement.delivered
  | .propose _ => []
  | .count p => (a.count p).2.toList.flatMap Settlement.delivered
  | .follow d => (a.follow d).2.2
  | .remove member => (a.remove member).2.flatMap Settlement.delivered

/-- The message that a call takes in: an own one that it creates, or a foreign one that it
answers. -/
def accepts? (a : Agreement) : Operation → Option Message
  | .create payload =>
    match a.create payload with
    | .error _ => none
    | .ok (_, m, _) => some m
  | .propose m => (a.propose m).2.map fun _ => m
  | .count _ => none
  | .follow _ => none
  | .remove _ => none

/-- Everything that some calls deliver, in order. -/
def deliveries (a : Agreement) : List Operation → List Message
  | [] => []
  | operation :: rest => a.delivers operation ++ (a.perform operation).deliveries rest

/-- Everything that some calls take in, in order. A message that is answered again is listed
again, with the payload it had then. -/
def acceptances (a : Agreement) : List Operation → List Message
  | [] => []
  | operation :: rest => (a.accepts? operation).toList ++ (a.perform operation).acceptances rest

/-- Where an agreement stands that took in and delivered these messages. -/
structure Recorded (accepted log : List Message) (a : Agreement) : Prop where
  distinct : (log.map Message.id).Nodup
  gone : ∀ m ∈ log, m.id ∉ a.queue.waiting
  seen : ∀ m ∈ log, a.hasDelivered m.id = true
  own_le : ∀ m ∈ log, m.id.sender = a.self → m.id.number ≤ a.created
  waits_first : ∀ e ∈ a.queue.entries, accepted.find? (·.id = e.id) = some e.message
  log_first : ∀ m ∈ log, accepted.find? (·.id = m.id) = some m
  known : ∀ m ∈ accepted, m.id ∈ a.queue.waiting ∨ m.id ∈ log.map Message.id

namespace Recorded

variable {a a' : Agreement} {accepted log : List Message}

theorem start (self : MemberId) (members : List MemberId) :
    Recorded [] [] (.start self members) where
  distinct := .nil
  gone _ hm := by cases hm
  seen _ hm := by cases hm
  own_le _ hm := by cases hm
  waits_first _ he := by cases he
  log_first _ hm := by cases hm
  known _ hm := by cases hm

/-- Who is live, what is answered and which ballots are open does not matter here. -/
theorem frame (h : Recorded accepted log a) (self : a'.self = a.self)
    (created : a'.created = a.created) (seen : a'.seen = a.seen) (queue : a'.queue = a.queue) :
    Recorded accepted log a' where
  distinct := h.distinct
  gone := queue ▸ h.gone
  seen m hm := by
    rw [hasDelivered, seen]
    exact h.seen m hm
  own_le := by
    rw [self, created]
    exact h.own_le
  waits_first := queue ▸ h.waits_first
  log_first := h.log_first
  known := queue ▸ h.known

/-- A message that is answered again changes nothing about which one came first. -/
theorem again (h : Recorded accepted log a) {m : Message} (waits : m.id ∈ a.queue.waiting) :
    Recorded (accepted ++ [m]) log a where
  distinct := h.distinct
  gone := h.gone
  seen := h.seen
  own_le := h.own_le
  waits_first e he := by rw [List.find?_append, h.waits_first e he, Option.some_or]
  log_first k hk := by rw [List.find?_append, h.log_first k hk, Option.some_or]
  known k hk := by
    rcases List.mem_append.mp hk with old | new
    · exact h.known k old
    · rw [List.mem_singleton.mp new]
      exact .inl waits

/-- A message that neither waits nor was delivered is the first one with its id. -/
theorem enter (h : Recorded accepted log a) {m : Message} {s : Stamp}
    (absent : m.id ∉ a.queue.waiting) (undelivered : m.id ∉ log.map Message.id)
    (self : a'.self = a.self) (created : a.created ≤ a'.created) (seen : a'.seen = a.seen)
    (queue : a'.queue = (a.queue.add m s).1) : Recorded (accepted ++ [m]) log a' := by
  have added : a'.queue = ⟨a.queue.waiting ++ [m.id], a.queue.entries ++ [⟨m, s, false⟩]⟩ :=
    queue.trans (HoldBack.add_eq s absent)
  have first : accepted.find? (·.id = m.id) = none := by
    rw [List.find?_eq_none]
    intro k hk same
    have same : k.id = m.id := of_decide_eq_true same
    rcases h.known k hk with waits | delivered
    · exact absent (same ▸ waits)
    · exact undelivered (same ▸ delivered)
  constructor
  case distinct => exact h.distinct
  case gone =>
    intro k hk waits
    rw [added, List.mem_append, List.mem_singleton] at waits
    rcases waits with old | same
    · exact h.gone k hk old
    · exact undelivered (same ▸ List.mem_map_of_mem hk)
  case seen =>
    intro k hk
    rw [hasDelivered, seen]
    exact h.seen k hk
  case own_le =>
    intro k hk own
    rw [self] at own
    exact UInt32.le_trans (h.own_le k hk own) created
  case waits_first =>
    intro e he
    rw [added] at he
    rw [List.find?_append]
    rcases List.mem_append.mp he with old | new
    · rw [h.waits_first e old, Option.some_or]
    · obtain rfl := List.mem_singleton.mp new
      change (accepted.find? (·.id = m.id)).or ([m].find? (·.id = m.id)) = some m
      simp [first]
  case log_first =>
    intro k hk
    rw [List.find?_append, h.log_first k hk, Option.some_or]
  case known =>
    intro k hk
    rw [added]
    rcases List.mem_append.mp hk with old | new
    · exact (h.known k old).imp_left (List.mem_append_left _)
    · rw [List.mem_singleton.mp new]
      exact .inl (List.mem_append_right _ List.mem_cons_self)

/-- What is delivered leaves the queue for good. -/
theorem adopt (h : Recorded accepted log a) (coherent : a.Coherent) (d : Decision) :
    Recorded accepted (log ++ (a.adopt d).2) (a.adopt d).1 := by
  have sound := coherent.sound
  obtain ⟨self, -, created, -⟩ := a.adopt_frame d
  have entries : ∀ e ∈ (a.adopt d).1.queue.entries, ∃ x ∈ a.queue.entries,
      x.message = e.message := by
    intro e he
    rw [adopt_queue sound] at he
    obtain ⟨-, ⟨old, -⟩ | ⟨x, hx, -, rfl⟩⟩ := (HoldBack.mem_adopt_iff sound d).mp he
    · exact ⟨e, old, rfl⟩
    · exact ⟨x, hx, rfl⟩
  have waiting : ∀ id, id ∈ (a.adopt d).1.queue.waiting ↔
      id ∈ a.queue.waiting ∧ id ∉ (a.adopt d).2.map Message.id := by
    intro id
    rw [adopt_queue sound, adopt_snd sound]
    exact HoldBack.mem_waiting_adopt sound d
  have waited : ∀ m ∈ (a.adopt d).2, ∃ e ∈ a.queue.entries, e.message = m := by
    intro m hm
    rw [adopt_snd sound] at hm
    obtain ⟨e, he, same, -⟩ := HoldBack.mem_adopt_snd sound d hm
    exact ⟨e, he, same⟩
  constructor
  case distinct =>
    rw [List.map_append]
    refine List.nodup_append.mpr ⟨h.distinct, ?_, fun id old k new same => ?_⟩
    · rw [adopt_snd sound]
      exact HoldBack.adopt_snd_distinct sound d
    · obtain ⟨m, hm, rfl⟩ := List.mem_map.mp old
      obtain ⟨n, hn, rfl⟩ := List.mem_map.mp new
      obtain ⟨e, he, rfl⟩ := waited n hn
      exact h.gone m hm (sound.mem_waiting.mpr ⟨e, he, same.symm⟩)
  case gone =>
    intro m hm waits
    obtain ⟨before, left⟩ := (waiting m.id).mp waits
    rcases List.mem_append.mp hm with old | new
    · exact h.gone m old before
    · exact left (List.mem_map_of_mem new)
  case seen =>
    intro m hm
    apply hasDelivered_adopt sound d
    rcases List.mem_append.mp hm with old | new
    · exact .inr (h.seen m old)
    · exact .inl (List.mem_map_of_mem new)
  case own_le =>
    rw [self, created]
    intro m hm own
    rcases List.mem_append.mp hm with old | new
    · exact h.own_le m old own
    · obtain ⟨e, he, rfl⟩ := waited m new
      exact coherent.own_le e he own
  case waits_first =>
    intro e he
    obtain ⟨x, hx, same⟩ := entries e he
    have first := h.waits_first x hx
    rwa [HoldBack.Entry.id, same] at first
  case log_first =>
    intro m hm
    rcases List.mem_append.mp hm with old | new
    · exact h.log_first m old
    · obtain ⟨e, he, rfl⟩ := waited m new
      exact h.waits_first e he
  case known =>
    intro m hm
    rw [waiting, List.map_append, List.mem_append]
    rcases h.known m hm with waits | delivered
    · by_cases now : m.id ∈ (a.adopt d).2.map Message.id
      · exact .inr (.inr now)
      · exact .inl ⟨waits, now⟩
    · exact .inr (.inl delivered)

theorem decide? (h : Recorded accepted log a) (coherent : a.Coherent) (id : MessageId) :
    Recorded accepted (log ++ (a.decide? id).2.toList.flatMap Settlement.delivered)
      (a.decide? id).1 := by
  rcases a.decide?_cases coherent.self_live id with ⟨same, -⟩ | ⟨b, s, -, -, -, result⟩
  · simpa [same] using h
  · have closed : Recorded accepted log (a.closed id) := h.frame rfl rfl rfl rfl
    simpa [result] using closed.adopt (coherent.closed id) ⟨id, s⟩

theorem decideAll (h : Recorded accepted log a) (coherent : a.Coherent) (ids : List MessageId) :
    Recorded accepted (log ++ (a.decideAll ids).2.flatMap Settlement.delivered)
      (a.decideAll ids).1 := by
  induction ids generalizing a log with
  | nil => simpa [Agreement.decideAll] using h
  | cons id rest ih =>
    have later := ih (h.decide? coherent id) (coherent.decide? id)
    simpa [Agreement.decideAll] using later

/-- A number that was not given yet belongs to no message that was delivered. -/
theorem undelivered_drafted (h : Recorded accepted log a) {m : Message} (own : m.id.sender = a.self)
    (created : after? a.created = some m.id.number) : m.id ∉ log.map Message.id := by
  intro delivered
  obtain ⟨k, hk, same⟩ := List.mem_map.mp delivered
  have le := h.own_le k hk (by rw [same, own])
  rw [same] at le
  exact UInt32.lt_irrefl _ (lt_after created le)

theorem undelivered_answered (h : Recorded accepted log a) {m : Message}
    (undelivered : a.hasDelivered m.id = false) : m.id ∉ log.map Message.id := by
  intro delivered
  obtain ⟨k, hk, same⟩ := List.mem_map.mp delivered
  have seen := h.seen k hk
  rw [same, undelivered] at seen
  cases seen

theorem perform (h : Recorded accepted log a) (coherent : a.Coherent) (operation : Operation) :
    Recorded (accepted ++ (a.accepts? operation).toList) (log ++ a.delivers operation)
      (a.perform operation) := by
  cases operation with
  | create payload =>
    cases outcome : a.create payload with
    | error e => simpa [accepts?, delivers, Agreement.perform, tryCreate_eq, outcome] using h
    | ok made =>
      obtain ⟨a', m, s⟩ := made
      obtain ⟨created, number, hc, hn, rfl, same⟩ := create_eq_ok outcome
      obtain rfl : a' = _ := congrArg Prod.fst same
      obtain rfl : s = _ := congrArg Prod.snd same
      have drafted : Recorded (accepted ++ [⟨⟨a.self, created⟩, payload⟩]) log
          (a.drafted ⟨⟨a.self, created⟩, payload⟩ number) :=
        h.enter (coherent.absent_drafted rfl hc) (h.undelivered_drafted rfl hc) rfl
          (UInt32.le_of_lt (lt_after hc (UInt32.le_refl _))) rfl rfl
      simpa [accepts?, delivers, Agreement.perform, tryCreate_eq, outcome] using
        drafted.decide? (coherent.drafted rfl hc hn) ⟨a.self, created⟩
  | propose m =>
    rcases a.propose_cases m with
      same | ⟨x, found, same⟩ | ⟨number, foreign, unanswered, undelivered, next, new⟩
    · simpa [accepts?, delivers, Agreement.perform, same] using h
    · obtain ⟨-, -, -, e, he, about, -⟩ := coherent.answer_waits m.id x found
      simpa [accepts?, delivers, Agreement.perform, same] using
        h.again (coherent.sound.mem_waiting.mpr ⟨e, he, about⟩)
    · have answered : Recorded (accepted ++ [m]) log (a.answered m number) :=
        h.enter (coherent.absent_answered foreign unanswered) (h.undelivered_answered undelivered)
          rfl (UInt32.le_refl _) rfl rfl
      simpa [accepts?, delivers, Agreement.perform, new] using answered
  | count p =>
    have tallied : Recorded accepted log (a.tallied p) := by
      unfold Agreement.tallied
      split
      · exact h
      · exact h.frame rfl rfl rfl rfl
    simpa [accepts?, delivers, Agreement.perform, count_eq] using
      tallied.decide? (coherent.tallied p) p.id
  | follow d => simpa [accepts?, delivers, Agreement.perform, follow] using h.adopt coherent d
  | remove other =>
    by_cases idle : other = a.self ∨ other ∉ a.live
    · have same : a.remove other = (a, []) := if_pos idle
      simpa [accepts?, delivers, Agreement.perform, same] using h
    · have drops : a.remove other = (a.without other).decideAll a.ballots.keys := if_neg idle
      have without : Recorded accepted log (a.without other) := h.frame rfl rfl rfl rfl
      simpa [accepts?, delivers, Agreement.perform, drops] using
        without.decideAll (coherent.without fun self => idle (.inl self)) a.ballots.keys

theorem run (h : Recorded accepted log a) (coherent : a.Coherent) (operations : List Operation) :
    Recorded (accepted ++ a.acceptances operations) (log ++ a.deliveries operations)
      (a.run operations) := by
  induction operations generalizing a accepted log with
  | nil => simpa [acceptances, deliveries, Agreement.run] using h
  | cons operation rest ih =>
    have later := ih (h.perform coherent operation)
      (coherent.change (a.change_perform operation))
    simpa [acceptances, deliveries, Agreement.run] using later

end Recorded

/-- Whatever calls come, in whatever order: no message is delivered twice, each is delivered as it
was first taken in, and none waits once it was delivered. -/
theorem delivered_once (self : MemberId) (members : List MemberId) (operations : List Operation) :
    (((start self members).deliveries operations).map Message.id).Nodup ∧
    (∀ m ∈ (start self members).deliveries operations,
      ((start self members).acceptances operations).find? (·.id = m.id) = some m) ∧
    ∀ m ∈ (start self members).deliveries operations,
      m.id ∉ ((start self members).run operations).queue.waiting ∧
      ∀ e ∈ ((start self members).run operations).queue.entries, e.id ≠ m.id := by
  have recorded := (Recorded.start self members).run (.start self members) operations
  rw [List.nil_append, List.nil_append] at recorded
  have coherent := (Coherent.start self members).run operations
  refine ⟨recorded.distinct, recorded.log_first, fun m hm => ⟨recorded.gone m hm, ?_⟩⟩
  intro e he same
  exact recorded.gone m hm (coherent.sound.mem_waiting.mpr ⟨e, he, same⟩)

/-- The greatest number is delivered before the least one, and neither comes again. -/
example :
    let least : Message := ⟨⟨⟨2⟩, 0⟩, 7⟩
    let greatest : Message := ⟨⟨⟨2⟩, 0xFFFFFFFF⟩, 8⟩
    let calls : List Operation := [.propose least, .propose greatest,
      .propose { least with payload := 9 }, .follow ⟨greatest.id, ⟨2, ⟨1⟩⟩⟩,
      .follow ⟨least.id, ⟨6, ⟨2⟩⟩⟩, .propose least, .follow ⟨least.id, ⟨7, ⟨2⟩⟩⟩, .propose greatest]
    (start ⟨1⟩ [⟨1⟩, ⟨2⟩]).deliveries calls = [greatest, least] := by
  decide +kernel

end Concord.Agreement
