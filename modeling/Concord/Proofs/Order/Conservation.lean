import Concord.Proofs.Order.Release

/-!
Messages pass through a queue without loss. The list of waiting ids and the entries are two views of
one set whatever is called, so looking an id up never fails for an id that is listed. Of one id, the
messages that were added are those that were released and, behind them, the one that waits.
-/

namespace Concord.HoldBack

/-- The messages of the entries. -/
def messages (q : HoldBack) : List Message := q.entries.map Entry.message

/-- What waits of one id. -/
def held (q : HoldBack) (id : MessageId) : List Message := q.messages.filter (·.id = id)

/-- What a call brings into the queue: a message whose addition is not refused. -/
def admits (q : HoldBack) : Call → List Message
  | .add m s => if (q.add m s).2 then [m] else []
  | .settle _ _ | .release => []

/-- What a call hands out. -/
def handsOut (q : HoldBack) : Call → List Message
  | .add _ _ | .settle _ _ => []
  | .release => q.release.2

/-- What the calls of a run yield one after the other, each in the queue that it finds. -/
def gathered (yield : HoldBack → Call → List Message) (q : HoldBack) : List Call → List Message
  | [] => []
  | call :: rest => yield q call ++ gathered yield (q.perform call) rest

/-- The messages that a run brings in, in the order of their additions. -/
def admitted (q : HoldBack) (calls : List Call) : List Message := q.gathered admits calls

/-- The messages that a run hands out, in the order of their release. -/
def handedOut (q : HoldBack) (calls : List Call) : List Message := q.gathered handsOut calls

/-- An id that is listed without an entry, for which `settle` gives up. -/
def Mislaid (q : HoldBack) (id : MessageId) : Prop :=
  id ∈ q.waiting ∧ q.entries.any (·.id = id) = false

variable {q : HoldBack}

theorem Sound.not_mislaid (h : q.Sound) (id : MessageId) : ¬ q.Mislaid id := by
  rintro ⟨waits, missing⟩
  obtain ⟨e, listed, same⟩ := h.mem_waiting.mp waits
  exact List.any_eq_false.mp missing e listed (decide_eq_true same)

theorem ids_messages (q : HoldBack) : q.messages.map Message.id = q.entries.map Entry.id :=
  List.map_map

/-- The entries of an id that waits are one entry. -/
theorem length_held (h : q.Sound) (id : MessageId) :
    (q.held id).length = if id ∈ q.waiting then 1 else 0 := by
  have count : (q.held id).length = (q.entries.map Entry.id).count id := by
    rw [held, ← List.countP_eq_length_filter, ← ids_messages, List.count, List.countP_map]
    rfl
  rw [count]
  split
  · rename_i waits
    exact List.count_eq_one_of_mem h.distinct ((h.listed id).mp waits)
  · rename_i absent
    exact List.count_eq_zero.mpr fun there => absent ((h.listed id).mpr there)

theorem messages_settle (h : q.Sound) (id : MessageId) (s : Stamp) :
    (q.settle id s).1.messages = q.messages := by
  rw [settle_eq h, messages, messages, List.map_map]
  apply List.map_congr_left
  intro e _
  simp only [Function.comp_apply]
  split <;> rfl

/-- A release parts the messages into those that it hands out and those that stay. -/
theorem release_append_messages_perm (q : HoldBack) :
    (q.release.2 ++ q.release.1.messages).Perm q.messages := by
  have parts := q.freed_append_kept_perm.map Entry.message
  rwa [List.map_append] at parts

/-- What is released has waited, and is gone from both views. -/
theorem Sound.gone_of_released (h : q.Sound) {m : Message} (released : m ∈ q.release.2) :
    m.id ∈ q.waiting ∧ m.id ∉ q.release.1.waiting ∧ m.id ∉ q.release.1.entries.map Entry.id := by
  have waited : m ∈ q.messages :=
    q.release_append_messages_perm.mem_iff.mp (List.mem_append_left _ released)
  have gone : m.id ∉ q.release.1.waiting := fun waits =>
    (mem_waiting_release.mp waits).2 (List.mem_map_of_mem released)
  refine ⟨(h.listed m.id).mpr ?_, gone, fun stays => ?_⟩
  · rw [← ids_messages]
    exact List.mem_map_of_mem waited
  · exact gone (((sound_release h).listed m.id).mpr stays)

/-- Both views are sets, and the same one. -/
structure Consistent (q : HoldBack) : Prop extends Sound q where
  single : q.waiting.Nodup

theorem consistent_empty : Consistent empty := ⟨sound_empty, .nil⟩

theorem Consistent.perform (h : q.Consistent) (call : Call) : (q.perform call).Consistent := by
  cases call with
  | add m s =>
    by_cases waits : m.id ∈ q.waiting
    · rwa [HoldBack.perform, add, if_pos waits]
    · refine ⟨sound_add h.toSound s waits, ?_⟩
      rw [HoldBack.perform, add_eq s waits]
      exact List.nodup_append.mpr ⟨h.single, List.nodup_singleton _, fun a old b new same =>
        waits (List.mem_singleton.mp new ▸ same ▸ old)⟩
  | settle id s =>
    refine ⟨sound_settle h.toSound id s, ?_⟩
    rw [HoldBack.perform, settle_eq h.toSound]
    exact h.single
  | release => exact ⟨sound_release h.toSound, h.single.filter _⟩

theorem Consistent.run (h : q.Consistent) (calls : List Call) : (q.run calls).Consistent := by
  induction calls generalizing q with
  | nil => exact h
  | cons call rest ih => exact ih (h.perform call)

theorem held_add (q : HoldBack) (m : Message) (s : Stamp) (id : MessageId) :
    (q.perform (.add m s)).held id = q.held id ++ (q.admits (.add m s)).filter (·.id = id) := by
  by_cases waits : m.id ∈ q.waiting
  · simp [perform, admits, add, waits]
  · simp [perform, admits, add, waits, held, messages]

/-- What a call brings in of an id stands behind what waits of it, and what it hands out comes off
the front. -/
theorem held_perform (h : q.Sound) (call : Call) (id : MessageId) :
    q.held id ++ (q.admits call).filter (·.id = id) =
      (q.handsOut call).filter (·.id = id) ++ (q.perform call).held id := by
  cases call with
  | add m s => rw [held_add, handsOut, List.filter_nil, List.nil_append]
  | settle id' s =>
    rw [perform, held, held, messages_settle h, admits, handsOut, List.filter_nil, List.append_nil,
      List.nil_append]
  | release =>
    have parts : ((q.release.2 ++ q.release.1.messages).filter (·.id = id)).Perm (q.held id) :=
      q.release_append_messages_perm.filter _
    rw [List.filter_append] at parts
    rw [admits, List.filter_nil, List.append_nil]
    -- a list of at most one message has one order only
    have one := length_held h id
    cases only : q.held id with
    | nil => exact (List.perm_nil.mp (only ▸ parts)).symm
    | cons m rest =>
      obtain rfl : rest = [] := by
        rw [only, List.length_cons] at one
        split at one
        · exact List.eq_nil_of_length_eq_zero (by omega)
        · omega
      exact (List.perm_singleton.mp (only ▸ parts)).symm

theorem held_run (h : q.Consistent) (calls : List Call) (id : MessageId) :
    q.held id ++ (q.admitted calls).filter (·.id = id) =
      (q.handedOut calls).filter (·.id = id) ++ (q.run calls).held id := by
  induction calls generalizing q with
  | nil => exact List.append_nil _
  | cons call rest ih =>
    have later := ih (h.perform call)
    calc q.held id ++ (q.admits call ++ (q.perform call).admitted rest).filter (·.id = id)
      _ = (q.held id ++ (q.admits call).filter (·.id = id)) ++
          ((q.perform call).admitted rest).filter (·.id = id) := by
        rw [List.filter_append, List.append_assoc]
      _ = (q.handsOut call).filter (·.id = id) ++ ((q.perform call).held id ++
          ((q.perform call).admitted rest).filter (·.id = id)) := by
        rw [held_perform h.toSound call id, List.append_assoc]
      _ = (q.handsOut call ++ (q.perform call).handedOut rest).filter (·.id = id) ++
          ((q.perform call).run rest).held id := by
        rw [later, List.filter_append, List.append_assoc]

/-- Whatever is called on a new queue, the listed ids are those of the entries, each once, so that
nothing listed is ever missing. An addition is refused exactly if the id waits, and then changes
nothing; a settlement is refused exactly if it does not, and changes the stamp of one entry. What is
released waits no more. Every id was added as often as it was released, and once more if it waits,
and what is released is what was added. -/
theorem messages_conserved (calls : List Call) :
    let q := empty.run calls
    q.waiting.Nodup ∧ (q.entries.map Entry.id).Nodup ∧
    (∀ id, id ∈ q.waiting ↔ id ∈ q.entries.map Entry.id) ∧
    (∀ id, ¬ q.Mislaid id) ∧
    (∀ m s, q.add m s =
      if m.id ∈ q.entries.map Entry.id then (q, false)
      else (⟨q.waiting ++ [m.id], q.entries ++ [⟨m, s, false⟩]⟩, true)) ∧
    (∀ id s, q.settle id s =
      (⟨q.waiting, q.entries.map fun e =>
          if e.id = id then { e with stamp := s, final := true } else e⟩,
        decide (id ∈ q.entries.map Entry.id))) ∧
    (∀ m ∈ q.release.2, m.id ∈ q.waiting ∧ m.id ∉ q.release.1.waiting ∧
      m.id ∉ q.release.1.entries.map Entry.id) ∧
    ∀ id,
      (empty.admitted calls).countP (·.id = id) =
        (empty.handedOut calls).countP (·.id = id) +
          (if id ∈ q.entries.map Entry.id then 1 else 0) ∧
      (empty.admitted calls).filter (·.id = id) =
        (empty.handedOut calls).filter (·.id = id) ++ q.held id := by
  intro q
  have consistent : q.Consistent := consistent_empty.run calls
  have sound := consistent.toSound
  refine ⟨consistent.single, sound.distinct, sound.listed, sound.not_mislaid, fun m s => ?_,
    fun id s => ?_, fun m released => sound.gone_of_released released, fun id => ?_⟩
  · simp only [add, sound.listed]
  · rw [settle_eq sound]
    simp only [sound.listed, Entry.settled]
  · have account : (empty.admitted calls).filter (·.id = id) =
        (empty.handedOut calls).filter (·.id = id) ++ q.held id :=
      held_run consistent_empty calls id
    refine ⟨?_, account⟩
    rw [List.countP_eq_length_filter, account, List.length_append, length_held sound,
      List.countP_eq_length_filter]
    simp only [sound.listed]

/-- An id that was released can be added again, with another payload. -/
example :
    let first : Message := ⟨⟨⟨1⟩, 1⟩, 5⟩
    let second : Message := ⟨⟨⟨1⟩, 1⟩, 6⟩
    let calls : List Call := [.add first ⟨1, ⟨2⟩⟩, .add second ⟨2, ⟨2⟩⟩, .settle first.id ⟨3, ⟨1⟩⟩,
      .release, .add second ⟨4, ⟨2⟩⟩]
    empty.admitted calls = [first, second] ∧ empty.handedOut calls = [first] ∧
      (empty.run calls).held first.id = [second] := by decide

end Concord.HoldBack
