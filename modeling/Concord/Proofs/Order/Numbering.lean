import Concord.Proofs.Order.Calls
import Concord.Proofs.Order.Repetition

/-!
The numbers that a member gives out, whatever is called. Each exceeds all that it gave out before and
all that were decided before as far as it knows. So it never gives a number to two messages, and a
message keeps the number that it got.
-/

namespace Concord.Agreement

/-- Where an agreement stands that made these proposals and adopted these decisions. -/
structure Numbered (assigned : List Proposal) (ruled : List Decision) (a : Agreement) : Prop where
  assigned_le : ∀ x ∈ assigned, x.stamp.number ≤ a.latest
  ruled_le : ∀ d ∈ ruled, d.stamp.number ≤ a.latest
  ascending : assigned.Pairwise fun x y => x.stamp.number < y.stamp.number
  distinct : (assigned.map Proposal.id).Nodup
  own_le : ∀ x ∈ assigned, x.id.sender = a.self → x.id.number ≤ a.created
  /-- A foreign message has its answer ready, until it is delivered. -/
  answered : ∀ x ∈ assigned, x.id.sender ≠ a.self →
    a.answers.get? x.id = some x ∨ a.hasDelivered x.id = true
  answer_assigned : ∀ id x, a.answers.get? id = some x → x ∈ assigned
  open_assigned : ∀ e ∈ a.queue.entries, e.final = false → ⟨e.id, e.stamp⟩ ∈ assigned

namespace Numbered

variable {a b : Agreement} {assigned : List Proposal} {ruled : List Decision}

theorem start (self : MemberId) (members : List MemberId) :
    Numbered [] [] (.start self members) where
  assigned_le _ hx := by cases hx
  ruled_le _ hd := by cases hd
  ascending := .nil
  distinct := .nil
  own_le _ hx := by cases hx
  answered _ hx := by cases hx
  answer_assigned _ _ found := by cases found
  open_assigned _ he := by cases he

/-- Who is live and which ballots are open does not matter here. -/
theorem frame (h : Numbered assigned ruled a) (live : Roll MemberId)
    (ballots : Table MessageId Ballot) : Numbered assigned ruled { a with live, ballots } :=
  ⟨h.assigned_le, h.ruled_le, h.ascending, h.distinct, h.own_le, h.answered, h.answer_assigned,
    h.open_assigned⟩

/-- A message that got no number yet gets one above all others. -/
theorem enter (h : Numbered assigned ruled a) {m : Message} {number : UInt32}
    (absent : m.id ∉ a.queue.waiting) (fresh : ∀ x ∈ assigned, x.id ≠ m.id)
    (next : after? a.latest = some number) (self : b.self = a.self) (latest : b.latest = number)
    (created : a.created ≤ b.created) (own : m.id.sender = a.self → m.id.number ≤ b.created)
    (seen : b.seen = a.seen) (queue : b.queue = (a.queue.add m ⟨number, a.self⟩).1)
    (ready : m.id.sender ≠ a.self → b.answers.get? m.id = some ⟨m.id, ⟨number, a.self⟩⟩)
    (others : ∀ id, id ≠ m.id → b.answers.get? id = a.answers.get? id)
    (new : ∀ x, b.answers.get? m.id = some x → x = ⟨m.id, ⟨number, a.self⟩⟩) :
    Numbered (assigned ++ [⟨m.id, ⟨number, a.self⟩⟩]) ruled b := by
  have above : ∀ n, n ≤ a.latest → n < number := fun n le => lt_after next le
  constructor
  case assigned_le =>
    rw [latest]
    intro x hx
    rcases List.mem_append.mp hx with old | here
    · exact UInt32.le_of_lt (above _ (h.assigned_le x old))
    · rw [List.mem_singleton.mp here]
      exact UInt32.le_refl _
  case ruled_le =>
    rw [latest]
    exact fun d hd => UInt32.le_of_lt (above _ (h.ruled_le d hd))
  case ascending =>
    refine List.pairwise_append.mpr ⟨h.ascending, List.pairwise_singleton _ _, fun x hx y hy => ?_⟩
    rw [List.mem_singleton.mp hy]
    exact above _ (h.assigned_le x hx)
  case distinct =>
    rw [List.map_append]
    refine List.nodup_append.mpr ⟨h.distinct, List.nodup_singleton _, fun id old k here same => ?_⟩
    obtain ⟨x, hx, rfl⟩ := List.mem_map.mp old
    exact fresh x hx (same.trans (List.mem_singleton.mp here))
  case own_le =>
    rw [self]
    intro x hx place
    rcases List.mem_append.mp hx with old | here
    · exact UInt32.le_trans (h.own_le x old place) created
    · rw [List.mem_singleton.mp here] at place ⊢
      exact own place
  case answered =>
    rw [self]
    intro x hx foreign
    rcases List.mem_append.mp hx with old | here
    · rw [others _ (fresh x old), hasDelivered, seen]
      exact h.answered x old foreign
    · rw [List.mem_singleton.mp here] at foreign ⊢
      exact .inl (ready foreign)
  case answer_assigned =>
    intro id x found
    by_cases here : id = m.id
    · rw [here] at found
      exact List.mem_append_right _ (List.mem_singleton.mpr (new x found))
    · rw [others id here] at found
      exact List.mem_append_left _ (h.answer_assigned id x found)
  case open_assigned =>
    rw [queue, HoldBack.add_eq _ absent]
    intro e he provisional
    rcases List.mem_append.mp he with old | here
    · exact List.mem_append_left _ (h.open_assigned e old provisional)
    · rw [List.mem_singleton.mp here]
      exact List.mem_append_right _ List.mem_cons_self

/-- A message of this member is numbered in its turn, so it has no proposal yet. -/
theorem fresh_own (h : Numbered assigned ruled a) {created : UInt32}
    (next : after? a.created = some created) :
    ∀ x ∈ assigned, x.id ≠ ⟨a.self, created⟩ := by
  intro x hx same
  have le := h.own_le x hx (congrArg MessageId.sender same)
  rw [same] at le
  exact UInt32.lt_irrefl _ (lt_after next le)

/-- A message that is neither answered nor delivered has no proposal yet. -/
theorem fresh_foreign (h : Numbered assigned ruled a) {id : MessageId}
    (foreign : id.sender ≠ a.self) (unanswered : a.answers.get? id = none)
    (undelivered : a.hasDelivered id = false) : ∀ x ∈ assigned, x.id ≠ id := by
  rintro x hx rfl
  rcases h.answered x hx foreign with found | seen
  · cases unanswered.symm.trans found
  · cases undelivered.symm.trans seen

theorem prepared (h : Numbered assigned ruled a) (coherent : a.Coherent) {operation : Operation}
    {proposal : Option Proposal} (prepares : Preparation a operation proposal b) :
    Numbered (assigned ++ proposal.toList) ruled b := by
  cases prepares with
  | same => simpa using h
  | @drafted payload created number next_created next =>
    have fresh := h.fresh_own next_created
    have absent := coherent.absent_drafted (m := ⟨⟨a.self, created⟩, payload⟩) rfl next_created
    have unanswered := coherent.unanswered absent
    exact h.enter (m := ⟨⟨a.self, created⟩, payload⟩) absent
      fresh next rfl rfl (UInt32.le_of_lt (lt_after next_created (UInt32.le_refl _)))
      (fun _ => UInt32.le_refl _) rfl rfl (fun foreign => absurd rfl foreign) (fun _ _ => rfl)
      (fun x found => by cases unanswered.symm.trans found)
  | @answered m number foreign unanswered undelivered next =>
    have answers : ∀ id, (a.answered m number).answers.get? id =
        if m.id = id then some ⟨m.id, ⟨number, a.self⟩⟩ else a.answers.get? id :=
      fun id => Table.get?_put _ _ _ _
    have ready := (answers m.id).trans (if_pos rfl)
    exact h.enter (coherent.absent_answered foreign unanswered)
      (h.fresh_foreign foreign unanswered undelivered) next rfl rfl (UInt32.le_refl _)
      (fun own => absurd own foreign) rfl rfl (fun _ => ready)
      (fun id other => (answers id).trans (if_neg (Ne.symm other)))
      (fun x found => (Option.some.inj (ready.symm.trans found)).symm)
  | tallied p =>
    rw [Option.toList_none, List.append_nil, tallied_with]
    exact h.frame a.live _
  | without foreign =>
    rw [Option.toList_none, List.append_nil]
    exact h.frame _ a.ballots

/-- A decision only raises the greatest number that was seen. -/
theorem adopt (h : Numbered assigned ruled a) (sound : a.queue.Sound) (d : Decision) :
    Numbered assigned (ruled ++ [d]) (a.adopt d).1 := by
  obtain ⟨self, -, created, -⟩ := a.adopt_frame d
  have latest := a.adopt_latest d
  have answers := adopt_answers sound d
  obtain ⟨latest_le, stamp_le⟩ := le_max a.latest d.stamp.number
  constructor
  case assigned_le =>
    rw [latest]
    exact fun x hx => UInt32.le_trans (h.assigned_le x hx) latest_le
  case ruled_le =>
    rw [latest]
    intro e he
    rcases List.mem_append.mp he with old | here
    · exact UInt32.le_trans (h.ruled_le e old) latest_le
    · rw [List.mem_singleton.mp here]
      exact stamp_le
  case ascending => exact h.ascending
  case distinct => exact h.distinct
  case own_le =>
    rw [self, created]
    exact h.own_le
  case answered =>
    rw [self]
    intro x hx foreign
    by_cases delivered : x.id ∈ (a.adopt d).2.map Message.id
    · exact .inr (hasDelivered_adopt sound d (.inl delivered))
    · rw [answers, if_neg delivered]
      exact (h.answered x hx foreign).imp_right fun seen => hasDelivered_adopt sound d (.inr seen)
  case answer_assigned =>
    intro id x found
    rw [answers] at found
    split at found
    · cases found
    · exact h.answer_assigned id x found
  case open_assigned =>
    intro e he provisional
    rw [adopt_queue sound] at he
    obtain ⟨-, ⟨old, -⟩ | ⟨x, -, -, rfl⟩⟩ := (HoldBack.mem_adopt_iff sound d).mp he
    · exact h.open_assigned e old provisional
    · cases provisional

theorem adoptAll (h : Numbered assigned ruled a) (coherent : a.Coherent) (ds : List Decision) :
    Numbered assigned (ruled ++ ds) (a.adoptAll ds).1 := by
  induction ds generalizing a ruled with
  | nil => simpa [Agreement.adoptAll] using h
  | cons d rest ih =>
    have later := ih (h.adopt coherent.sound d) (coherent.adopt d)
    rwa [List.append_assoc] at later

theorem ready (h : Numbered assigned ruled a) (coherent : a.Coherent) (operation : Operation) :
    Numbered (assigned ++ (a.assigns? operation).toList) ruled (a.ready operation) := by
  rw [Agreement.ready, closeAll_eq]
  exact (h.prepared coherent (a.preparation operation)).frame _ _

theorem perform (h : Numbered assigned ruled a) (coherent : a.Coherent) (operation : Operation) :
    Numbered (assigned ++ (a.assigns? operation).toList) (ruled ++ a.rules operation)
      (a.perform operation) := by
  rw [(a.perform_eq operation).1]
  exact (h.ready coherent operation).adoptAll (coherent.ready operation) _

theorem run (h : Numbered assigned ruled a) (coherent : a.Coherent) (operations : List Operation) :
    Numbered (assigned ++ a.assignments operations) (ruled ++ a.rulings operations)
      (a.run operations) := by
  induction operations generalizing a assigned ruled with
  | nil => simpa [assignments, rulings, Agreement.run] using h
  | cons operation rest ih =>
    have later := ih (h.perform coherent operation) (coherent.change (a.change_perform operation))
    simpa [assignments, rulings, Agreement.run] using later

/-- A number stands for one message only. -/
theorem eq_of_number_eq (h : Numbered assigned ruled a) {x y : Proposal} (hx : x ∈ assigned)
    (hy : y ∈ assigned) (same : x.stamp.number = y.stamp.number) : x = y := by
  have numbers : (assigned.map fun z => z.stamp.number).Nodup := by
    refine List.pairwise_map.mpr (h.ascending.imp fun {x y} lt same => ?_)
    rw [same] at lt
    exact UInt32.lt_irrefl _ lt
  exact List.inj_on_of_nodup_map numbers hx hy same

end Numbered

/-- The answer that a call gives, for the first time or again. -/
def reply? (a : Agreement) : Operation → Option Proposal
  | .propose m => (a.propose m).2
  | _ => none

/-- All answers that some calls give, in order. -/
def replies (a : Agreement) : List Operation → List Proposal
  | [] => []
  | operation :: rest => (a.reply? operation).toList ++ (a.perform operation).replies rest

/-- Whatever is answered was proposed by this call or an earlier one. -/
theorem Numbered.assigned_of_reply {a : Agreement} {assigned : List Proposal}
    {ruled : List Decision} (h : Numbered assigned ruled a) {operation : Operation} {x : Proposal}
    (answer : a.reply? operation = some x) : x ∈ assigned ++ (a.assigns? operation).toList := by
  cases operation with
  | propose m =>
    by_cases known : a.answers.contains m.id = true
    · obtain ⟨y, found⟩ := Table.contains_iff.mp known
      rcases a.propose_cases m with same | ⟨z, found', same⟩ | ⟨-, -, unanswered, -⟩
      · simp [reply?, same] at answer
      · have same : z = x := by simpa [reply?, same] using answer
        exact List.mem_append_left _ (h.answer_assigned m.id x (same ▸ found'))
      · cases unanswered.symm.trans found
    · have new : a.assigns? (.propose m) = some x := (if_neg known).trans answer
      simp [new]
  | create _ => cases answer
  | count _ => cases answer
  | follow _ => cases answer
  | remove _ => cases answer

theorem Numbered.assigned_of_mem_replies {a : Agreement} {assigned : List Proposal}
    {ruled : List Decision} (h : Numbered assigned ruled a) (coherent : a.Coherent)
    {operations : List Operation} {x : Proposal} (hx : x ∈ a.replies operations) :
    x ∈ assigned ++ a.assignments operations := by
  induction operations generalizing a assigned ruled with
  | nil => cases hx
  | cons operation rest ih =>
    rw [assignments, ← List.append_assoc]
    rcases List.mem_append.mp hx with now | later
    · exact List.mem_append_left _ (h.assigned_of_reply (Option.mem_toList.mp now))
    · exact ih (h.perform coherent operation) (coherent.change (a.change_perform operation)) later

theorem latest_le_adoptAll {a : Agreement} (coherent : a.Coherent) (ds : List Decision) :
    a.latest ≤ (a.adoptAll ds).1.latest := by
  induction ds generalizing a with
  | nil => exact UInt32.le_refl _
  | cons d rest ih =>
    have first : a.latest ≤ (a.adopt d).1.latest := by
      rw [adopt_latest]
      exact (le_max _ _).1
    exact UInt32.le_trans first (ih (coherent.adopt d))

theorem Preparation.latest_le {a b : Agreement} {operation : Operation}
    {proposal : Option Proposal} (prepares : Preparation a operation proposal b) :
    a.latest ≤ b.latest := by
  cases prepares with
  | same => exact UInt32.le_refl _
  | drafted _ next => exact UInt32.le_of_lt (lt_after next (UInt32.le_refl _))
  | answered _ _ _ next => exact UInt32.le_of_lt (lt_after next (UInt32.le_refl _))
  | tallied p =>
    rw [tallied_with]
    exact UInt32.le_refl _
  | without => exact UInt32.le_refl _

/-- The number of a new proposal is the one after the greatest that was seen. -/
theorem Preparation.lt_number {a b : Agreement} {operation : Operation} {x : Proposal}
    (prepares : Preparation a operation (some x) b) {n : UInt32} (le : n ≤ a.latest) :
    n < x.stamp.number := by
  cases prepares with
  | drafted _ next => exact lt_after next le
  | answered _ _ _ next => exact lt_after next le

theorem latest_le_perform {a : Agreement} (coherent : a.Coherent) (operation : Operation) :
    a.latest ≤ (a.perform operation).latest := by
  rw [(a.perform_eq operation).1]
  apply UInt32.le_trans (a.preparation operation).latest_le
  refine UInt32.le_trans ?_ (latest_le_adoptAll (coherent.ready operation) _)
  rw [ready, closeAll_eq]
  exact UInt32.le_refl _

/-- Taking in a message again that waits changes nothing. -/
theorem Coherent.propose_waiting {a : Agreement} (h : a.Coherent) {m : Message}
    (waits : m.id ∈ a.queue.waiting) : (a.propose m).1 = a := by
  by_cases own : m.id.sender = a.self
  · rw [propose_of_ignores (.inl own)]
  · obtain ⟨e, he, about⟩ := h.sound.mem_waiting.mp waits
    obtain ⟨x, found⟩ := h.waits_answered e he (about ▸ own)
    rw [propose_of_answer own (about ▸ found)]

/-- A foreign message that is new here is numbered, queued and answered. -/
theorem Coherent.propose_new {a : Agreement} (h : a.Coherent) {m : Message} {number : UInt32}
    (foreign : m.id.sender ≠ a.self) (absent : m.id ∉ a.queue.waiting)
    (undelivered : a.hasDelivered m.id = false) (next : after? a.latest = some number) :
    a.assigns? (.propose m) = some ⟨m.id, ⟨number, a.self⟩⟩ ∧
    (a.propose m).2 = some ⟨m.id, ⟨number, a.self⟩⟩ ∧
    (a.propose m).1.queue.entries = a.queue.entries ++ [⟨m, ⟨number, a.self⟩, false⟩] := by
  have unanswered := h.unanswered absent
  have new : a.propose m = (a.answered m number, some ⟨m.id, ⟨number, a.self⟩⟩) := by
    simp only [propose, if_neg foreign, unanswered, undelivered, next]
    rfl
  refine ⟨?_, ?_, ?_⟩
  · rw [assigns?_propose unanswered, new]
  · rw [new]
  · rw [new]
    exact (h.enter absent next).1

/-- Whatever was called, and whatever is called next: a number that is given out exceeds all numbers
given out before and all that were decided before, so no two messages have the same one; a message
gets the same answer every time, none once it is delivered, and taking it in again changes nothing;
a message that is new gets the next number, as long as one is left, and a foreign one waits with it
at the end of the queue and has it for an answer; and neither the greatest number seen nor the count
of own messages ever falls. -/
theorem proposals_fresh (self : MemberId) (members : List MemberId) (operations : List Operation)
    (next : Operation) :
    let a := (start self members).run operations
    (∀ x, a.assigns? next = some x →
      (∀ y ∈ (start self members).assignments operations, y.stamp.number < x.stamp.number) ∧
      ∀ d ∈ (start self members).rulings operations, d.stamp.number < x.stamp.number) ∧
    (∀ x ∈ (start self members).assignments operations,
      ∀ y ∈ (start self members).assignments operations,
        x.stamp.number = y.stamp.number → x = y) ∧
    (∀ x ∈ (start self members).replies operations, ∀ y ∈ (start self members).replies operations,
      x.id = y.id → x = y) ∧
    (∀ m, (∀ x, (a.propose m).2 = some x → x.id = m.id) ∧
      (m.id ∈ a.queue.waiting → (a.propose m).1 = a) ∧
      (m.id ∈ ((start self members).deliveries operations).map Message.id →
        a.propose m = (a, none))) ∧
    (a.latest ≠ 0xFFFFFFFF →
      (∀ m, m.id.sender ≠ self → m.id ∉ a.queue.waiting → a.hasDelivered m.id = false →
        a.assigns? (.propose m) = some ⟨m.id, ⟨a.latest + 1, self⟩⟩ ∧
        (a.propose m).2 = some ⟨m.id, ⟨a.latest + 1, self⟩⟩ ∧
        (a.propose m).1.queue.entries =
          a.queue.entries ++ [⟨m, ⟨a.latest + 1, self⟩, false⟩]) ∧
      (a.created ≠ 0xFFFFFFFF → ∀ payload,
        a.assigns? (.create payload) =
          some ⟨⟨self, a.created + 1⟩, ⟨a.latest + 1, self⟩⟩)) ∧
    a.latest ≤ (a.perform next).latest ∧ a.created ≤ (a.perform next).created := by
  intro a
  have own : a.self = self := run_self _ operations
  have coherent := (Coherent.start self members).run operations
  have numbered := (Numbered.start self members).run (.start self members) operations
  have recorded := (Recorded.start self members).run (.start self members) operations
  rw [List.nil_append, List.nil_append] at numbered recorded
  refine ⟨fun x new => ?_, fun x hx y hy same => ?_, fun x hx y hy same => ?_, fun m => ?_,
    fun left => ⟨fun m foreign absent undelivered => ?_, fun unbounded payload => ?_⟩,
    latest_le_perform coherent next, (a.change_perform next).created_le⟩
  · have prepares := a.preparation next
    rw [new] at prepares
    exact ⟨fun y hy => prepares.lt_number (numbered.assigned_le y hy),
      fun d hd => prepares.lt_number (numbered.ruled_le d hd)⟩
  · exact numbered.eq_of_number_eq hx hy same
  · have assigned : ∀ z ∈ (start self members).replies operations,
        z ∈ (start self members).assignments operations := fun z hz =>
      (Numbered.start self members).assigned_of_mem_replies (.start self members) hz
    exact List.inj_on_of_nodup_map numbered.distinct (assigned x hx) (assigned y hy) same
  · refine ⟨fun x answer => about_of_propose coherent answer, coherent.propose_waiting, ?_⟩
    intro delivered
    obtain ⟨k, hk, same⟩ := List.mem_map.mp delivered
    apply propose_of_ignores
    by_cases own : m.id.sender = a.self
    · exact .inl own
    · have absent := coherent.unanswered (recorded.gone k hk)
      exact .inr ⟨same ▸ absent, .inl (same ▸ recorded.seen k hk)⟩
  · rw [← own] at foreign
    have new := coherent.propose_new foreign absent undelivered (after?_of_ne left)
    rwa [own] at new
  · have new := assigns?_create (after?_of_ne unbounded) (after?_of_ne left) payload
    rwa [own] at new

/-- A decision on a message that is not known here counts as well, and a copy gets no new number. -/
example :
    let message : Message := ⟨⟨⟨2⟩, 1⟩, 8⟩
    (start ⟨1⟩ [⟨1⟩, ⟨2⟩]).assignments
        [.create 7, .follow ⟨⟨⟨2⟩, 9⟩, ⟨4, ⟨2⟩⟩⟩, .propose message, .propose message] =
      [⟨⟨⟨1⟩, 1⟩, ⟨1, ⟨1⟩⟩⟩, ⟨message.id, ⟨5, ⟨1⟩⟩⟩] := by
  decide +kernel

end Concord.Agreement
