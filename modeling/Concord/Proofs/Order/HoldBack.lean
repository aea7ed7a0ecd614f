import Concord.Order.HoldBack
import Mathlib.Data.List.Perm.Basic
import Mathlib.Data.List.Nodup
import Mathlib.Data.List.TakeWhile

/-!
The hold-back queue seen as a set of entries. An arranged queue holds the same entries in the order
of release, so everything that a release frees comes before everything that it keeps, and what it
keeps is blocked by an open entry.
-/

namespace Concord.HoldBack

theorem Entry.precedes_iff (a b : Entry) : a.precedes b = true ↔
    a.stamp.number < b.stamp.number ∨ a.stamp.number = b.stamp.number ∧
      (a.final = false ∧ b.final = true ∨
        a.final = b.final ∧ a.stamp.proposer.rank < b.stamp.proposer.rank) := by
  simp [Entry.precedes]

theorem Entry.precedes_asymm {a b : Entry} (h : a.precedes b = true) : b.precedes a = false := by
  rw [← Bool.not_eq_true, Entry.precedes_iff]
  rw [Entry.precedes_iff] at h
  grind

/-- An entry before another one is before or behind any third accordingly. -/
theorem Entry.precedes_split {a b : Entry} (h : a.precedes b = true) (c : Entry) :
    a.precedes c = true ∨ c.precedes b = true := by
  simp only [Entry.precedes_iff] at *
  grind

theorem arrangeIn_perm (e : Entry) (l : List Entry) : (arrangeIn e l).Perm (e :: l) := by
  induction l with
  | nil => exact .refl _
  | cons x rest ih =>
    unfold arrangeIn
    split
    · exact (ih.cons x).trans (.swap e x rest)
    · exact .refl _

theorem arrange_perm (l : List Entry) : (arrange l).Perm l := by
  induction l with
  | nil => exact .refl _
  | cons e rest ih => exact (arrangeIn_perm e _).trans (ih.cons e)

/-- No entry stands before one that precedes it. -/
def Arranged (l : List Entry) : Prop := l.Pairwise fun a b => b.precedes a = false

theorem arranged_arrangeIn (e : Entry) {l : List Entry} (h : Arranged l) :
    Arranged (arrangeIn e l) := by
  induction l with
  | nil => exact List.pairwise_singleton _ _
  | cons x rest ih =>
    obtain ⟨hx, hrest⟩ := List.pairwise_cons.mp h
    unfold arrangeIn
    split
    · rename_i first
      refine List.pairwise_cons.mpr ⟨fun y hy => ?_, ih hrest⟩
      rcases List.mem_cons.mp ((arrangeIn_perm e rest).mem_iff.mp hy) with rfl | hy
      · exact Entry.precedes_asymm first
      · exact hx y hy
    · rename_i later
      refine List.pairwise_cons.mpr ⟨fun y hy => ?_, h⟩
      rcases List.mem_cons.mp hy with rfl | hy
      · exact Bool.not_eq_true _ ▸ later
      · cases before : y.precedes e with
        | false => rfl
        | true =>
          rcases Entry.precedes_split before x with hyx | hxe
          · rw [hx y hy] at hyx
            cases hyx
          · exact absurd hxe later

theorem arranged_arrange (l : List Entry) : Arranged (arrange l) := by
  induction l with
  | nil => exact .nil
  | cons e rest ih => exact arranged_arrangeIn e ih

/-- The entries that a release takes off the queue, in its order. -/
def freed (q : HoldBack) : List Entry := (arrange q.entries).takeWhile Entry.final

/-- The entries that stay, in the same order. -/
def kept (q : HoldBack) : List Entry := (arrange q.entries).dropWhile Entry.final

theorem release_eq (q : HoldBack) : q.release =
    (⟨q.waiting.filter (· ∉ (q.freed.map Entry.message).map Message.id), q.kept⟩,
      q.freed.map Entry.message) := rfl

theorem freed_append_kept (q : HoldBack) : q.freed ++ q.kept = arrange q.entries :=
  List.takeWhile_append_dropWhile

theorem freed_append_kept_perm (q : HoldBack) : (q.freed ++ q.kept).Perm q.entries :=
  q.freed_append_kept ▸ arrange_perm q.entries

theorem mem_entries_iff {q : HoldBack} {e : Entry} : e ∈ q.entries ↔ e ∈ q.freed ∨ e ∈ q.kept := by
  rw [← q.freed_append_kept_perm.mem_iff, List.mem_append]

theorem final_of_mem_freed {q : HoldBack} {e : Entry} (h : e ∈ q.freed) : e.final = true :=
  List.mem_takeWhile_imp h

theorem arranged_freed_append_kept (q : HoldBack) : Arranged (q.freed ++ q.kept) :=
  q.freed_append_kept ▸ arranged_arrange q.entries

theorem arranged_freed (q : HoldBack) : Arranged q.freed :=
  (List.pairwise_append.mp q.arranged_freed_append_kept).1

theorem arranged_kept (q : HoldBack) : Arranged q.kept :=
  (List.pairwise_append.mp q.arranged_freed_append_kept).2.1

theorem kept_behind_freed {q : HoldBack} {x y : Entry} (hx : x ∈ q.freed) (hy : y ∈ q.kept) :
    y.precedes x = false :=
  (List.pairwise_append.mp q.arranged_freed_append_kept).2.2 x hx y hy

/-- What a release keeps has an open entry at its front. -/
theorem kept_blocked {q : HoldBack} (h : q.kept ≠ []) : ∃ e ∈ q.kept, e.final = false := by
  refine ⟨q.kept.head h, List.head_mem h, ?_⟩
  exact List.head_dropWhile_not (p := Entry.final) h

/-- No message waits twice, and `waiting` lists the messages of the entries. -/
structure Sound (q : HoldBack) : Prop where
  distinct : (q.entries.map Entry.id).Nodup
  listed : ∀ id, id ∈ q.waiting ↔ id ∈ q.entries.map Entry.id

theorem sound_empty : Sound empty := ⟨.nil, fun _ => .rfl⟩

namespace Sound

variable {q : HoldBack}

theorem mem_waiting (h : q.Sound) {id : MessageId} : id ∈ q.waiting ↔ ∃ e ∈ q.entries, e.id = id := by
  rw [h.listed, List.mem_map]

theorem eq_of_id_eq (h : q.Sound) {a b : Entry} (ha : a ∈ q.entries) (hb : b ∈ q.entries)
    (same : a.id = b.id) : a = b :=
  List.inj_on_of_nodup_map h.distinct ha hb same

end Sound

theorem add_eq {q : HoldBack} {m : Message} (s : Stamp) (new : m.id ∉ q.waiting) :
    (q.add m s).1 = ⟨q.waiting ++ [m.id], q.entries ++ [⟨m, s, false⟩]⟩ := by
  rw [add, if_neg new]

theorem sound_add {q : HoldBack} (h : q.Sound) {m : Message} (s : Stamp) (new : m.id ∉ q.waiting) :
    (q.add m s).1.Sound := by
  rw [add_eq s new]
  constructor
  · have absent : m.id ∉ q.entries.map Entry.id := fun hm => new ((h.listed _).mpr hm)
    rw [List.map_append]
    refine List.nodup_append.mpr ⟨h.distinct, List.nodup_singleton _, fun a ha b hb same => ?_⟩
    rw [same, List.mem_singleton.mp hb] at ha
    exact absent ha
  · intro id
    simp [h.listed, Entry.id]

/-- An entry with the stamp that was decided for its message. -/
def Entry.settled (s : Stamp) (e : Entry) : Entry := { e with stamp := s, final := true }

@[simp] theorem Entry.settled_id (s : Stamp) (e : Entry) : (e.settled s).id = e.id := rfl

theorem settleIn_eq_map (id : MessageId) (s : Stamp) {l : List Entry}
    (distinct : (l.map Entry.id).Nodup) :
    settleIn id s l = l.map fun e => if e.id = id then e.settled s else e := by
  induction l with
  | nil => rfl
  | cons e rest ih =>
    obtain ⟨he, hrest⟩ := List.nodup_cons.mp distinct
    unfold settleIn
    by_cases here : e.id = id
    · -- the later entries are about other messages
      have others : rest.map (fun x => if x.id = id then x.settled s else x) = rest := by
        refine (List.map_congr_left fun x hx => if_neg fun hxi => he ?_).trans (List.map_id' rest)
        exact here.trans hxi.symm ▸ List.mem_map_of_mem hx
      rw [if_pos here, List.map_cons, if_pos here, others]
      rfl
    · rw [if_neg here, List.map_cons, if_neg here, ih hrest]

/-- Settling touches the entries of one message only, and answers whether there is one. -/
theorem settle_eq {q : HoldBack} (h : q.Sound) (id : MessageId) (s : Stamp) : q.settle id s =
    (⟨q.waiting, q.entries.map fun e => if e.id = id then e.settled s else e⟩,
      decide (id ∈ q.waiting)) := by
  unfold settle
  by_cases waits : id ∈ q.waiting
  · obtain ⟨e, he, hid⟩ := h.mem_waiting.mp waits
    have found : q.entries.any (·.id = id) = true :=
      List.any_eq_true.mpr ⟨e, he, decide_eq_true hid⟩
    rw [if_pos waits, if_pos found, settleIn_eq_map id s h.distinct, decide_eq_true waits]
  · have none : q.entries.map (fun e => if e.id = id then e.settled s else e) = q.entries := by
      refine (List.map_congr_left fun e he => if_neg fun hid => waits ?_).trans (List.map_id' _)
      exact h.mem_waiting.mpr ⟨e, he, hid⟩
    rw [if_neg waits, none, decide_eq_false waits]

/-- Settling makes the entry of the message final and keeps the others. -/
theorem mem_settle {q : HoldBack} (h : q.Sound) {id : MessageId} {s : Stamp} {e : Entry} :
    e ∈ (q.settle id s).1.entries ↔
      e ∈ q.entries ∧ e.id ≠ id ∨ ∃ x ∈ q.entries, x.id = id ∧ e = x.settled s := by
  rw [settle_eq h, List.mem_map]
  constructor
  · rintro ⟨x, hx, rfl⟩
    by_cases here : x.id = id
    · exact .inr ⟨x, hx, here, if_pos here⟩
    · rw [if_neg here]
      exact .inl ⟨hx, here⟩
  · rintro (⟨he, other⟩ | ⟨x, hx, here, rfl⟩)
    · exact ⟨e, he, if_neg other⟩
    · exact ⟨x, hx, if_pos here⟩

theorem sound_settle {q : HoldBack} (h : q.Sound) (id : MessageId) (s : Stamp) :
    (q.settle id s).1.Sound := by
  have ids : (q.settle id s).1.entries.map Entry.id = q.entries.map Entry.id := by
    rw [settle_eq h, List.map_map]
    apply List.map_congr_left
    intro e _
    simp only [Function.comp_apply]
    split <;> rfl
  constructor
  · exact ids ▸ h.distinct
  · intro x
    rw [ids, settle_eq h]
    exact h.listed x

/-- A release neither frees a message twice nor frees one that it keeps. -/
theorem freed_distinct {q : HoldBack} (h : q.Sound) : (q.freed.map Entry.id).Nodup ∧
    ∀ x ∈ q.freed, ∀ y ∈ q.kept, x.id ≠ y.id := by
  have ids := q.freed_append_kept_perm.map Entry.id
  rw [List.map_append] at ids
  obtain ⟨distinct, -, apart⟩ := List.nodup_append.mp (ids.nodup_iff.mpr h.distinct)
  exact ⟨distinct, fun x hx y hy =>
    apart _ (List.mem_map_of_mem hx) _ (List.mem_map_of_mem hy)⟩

theorem mem_waiting_release {q : HoldBack} {id : MessageId} :
    id ∈ q.release.1.waiting ↔ id ∈ q.waiting ∧ id ∉ q.release.2.map Message.id := by
  rw [release_eq, List.mem_filter, decide_eq_true_eq]

theorem sound_release {q : HoldBack} (h : q.Sound) : q.release.1.Sound := by
  have ids := q.freed_append_kept_perm.map Entry.id
  rw [List.map_append] at ids
  obtain ⟨-, distinct, apart⟩ := List.nodup_append.mp (ids.nodup_iff.mpr h.distinct)
  constructor
  · exact distinct
  · intro id
    have whole : id ∈ q.waiting ↔ id ∈ q.freed.map Entry.id ∨ id ∈ q.kept.map Entry.id := by
      rw [h.listed, ← ids.mem_iff, List.mem_append]
    have released : q.release.2.map Message.id = q.freed.map Entry.id := List.map_map
    rw [mem_waiting_release, released, whole]
    constructor
    · rintro ⟨freed | kept, left⟩
      · exact absurd freed left
      · exact kept
    · intro kept
      exact ⟨.inr kept, fun freed => apart id freed id kept rfl⟩

/-- Takes a decision: what it settles may release messages. -/
def adopt (q : HoldBack) (d : Decision) : HoldBack × List Message :=
  if d.id ∈ q.waiting then (q.settle d.id d.stamp).1.release else (q, [])

theorem mem_waiting_adopt {q : HoldBack} (h : q.Sound) (d : Decision) {id : MessageId} :
    id ∈ (q.adopt d).1.waiting ↔ id ∈ q.waiting ∧ id ∉ (q.adopt d).2.map Message.id := by
  unfold adopt
  split
  · rw [mem_waiting_release, settle_eq h]
  · exact ⟨fun waits => ⟨waits, List.not_mem_nil⟩, And.left⟩

/-- The entries of a queue that is not empty wait for an open one among them. -/
def Blocked (q : HoldBack) : Prop := q.entries ≠ [] → ∃ e ∈ q.entries, e.final = false

theorem blocked_add {q : HoldBack} (h : q.Blocked) (m : Message) (s : Stamp) :
    (q.add m s).1.Blocked := by
  unfold add
  split
  · exact h
  · exact fun _ => ⟨⟨m, s, false⟩, List.mem_append_right _ List.mem_cons_self, rfl⟩

theorem blocked_adopt {q : HoldBack} (h : q.Blocked) (d : Decision) : (q.adopt d).1.Blocked := by
  unfold adopt
  split
  · exact kept_blocked
  · exact h

/-- What a release keeps are the entries that it does not free. -/
theorem mem_kept_iff {q : HoldBack} (h : q.Sound) {e : Entry} :
    e ∈ q.kept ↔ e ∈ q.entries ∧ e.id ∉ q.release.2.map Message.id := by
  have released : q.release.2.map Message.id = q.freed.map Entry.id := List.map_map
  rw [released, mem_entries_iff]
  constructor
  · intro kept
    refine ⟨.inr kept, fun freed => ?_⟩
    obtain ⟨x, hx, same⟩ := List.mem_map.mp freed
    exact (freed_distinct h).2 x hx e kept same
  · rintro ⟨freed | kept, left⟩
    · exact absurd (List.mem_map_of_mem freed) left
    · exact kept

/-- What is left after a decision: the entries that were not released, with that of the message
settled. -/
theorem mem_adopt_iff {q : HoldBack} (h : q.Sound) (d : Decision) {e : Entry} :
    e ∈ (q.adopt d).1.entries ↔ e.id ∉ (q.adopt d).2.map Message.id ∧
      (e ∈ q.entries ∧ e.id ≠ d.id ∨ ∃ x ∈ q.entries, x.id = d.id ∧ e = x.settled d.stamp) := by
  unfold adopt
  split
  · exact (mem_kept_iff (sound_settle h d.id d.stamp)).trans (by rw [mem_settle h, and_comm])
  · rename_i absent
    have other : ∀ x ∈ q.entries, x.id ≠ d.id := fun x hx same =>
      absent (h.mem_waiting.mpr ⟨x, hx, same⟩)
    constructor
    · exact fun he => ⟨List.not_mem_nil, .inl ⟨he, other e he⟩⟩
    · rintro ⟨-, ⟨he, -⟩ | ⟨x, hx, same, -⟩⟩
      · exact he
      · exact absurd same (other x hx)

/-- What a decision releases waited with a final stamp, or is the message that it settles. -/
theorem mem_adopt_snd {q : HoldBack} (h : q.Sound) (d : Decision) {m : Message}
    (hm : m ∈ (q.adopt d).2) : ∃ e ∈ q.entries, e.message = m ∧ (e.final = true ∨ e.id = d.id) := by
  unfold adopt at hm
  split at hm
  · obtain ⟨e, freed, rfl⟩ := List.mem_map.mp hm
    have final := final_of_mem_freed freed
    rcases (mem_settle h).mp (mem_entries_iff.mpr (.inl freed)) with
      ⟨waits, -⟩ | ⟨x, waits, about, rfl⟩
    · exact ⟨e, waits, rfl, .inl final⟩
    · exact ⟨x, waits, rfl, .inr about⟩
  · cases hm

/-- A decision leaves the other messages alone, except that it may release some that were final. -/
theorem kept_or_released {q : HoldBack} (h : q.Sound) (d : Decision) {e : Entry}
    (he : e ∈ q.entries) (other : e.id ≠ d.id) :
    e ∈ (q.adopt d).1.entries ∨ e.final = true ∧ e.message ∈ (q.adopt d).2 := by
  by_cases released : e.id ∈ (q.adopt d).2.map Message.id
  · obtain ⟨m, hm, same⟩ := List.mem_map.mp released
    obtain ⟨x, hx, rfl, final⟩ := mem_adopt_snd h d hm
    obtain rfl : x = e := h.eq_of_id_eq hx he same
    exact .inr ⟨final.resolve_right other, hm⟩
  · exact .inl ((mem_adopt_iff h d).mpr ⟨released, .inl ⟨he, other⟩⟩)

theorem mem_or_about_of_adopt {q : HoldBack} (h : q.Sound) (d : Decision) {e : Entry}
    (he : e ∈ (q.adopt d).1.entries) : e ∈ q.entries ∨ e.id = d.id := by
  rcases ((mem_adopt_iff h d).mp he).2 with ⟨old, -⟩ | ⟨x, -, about, rfl⟩
  · exact .inl old
  · exact .inr about

theorem adopt_snd_distinct {q : HoldBack} (h : q.Sound) (d : Decision) :
    ((q.adopt d).2.map Message.id).Nodup := by
  unfold adopt
  split
  · have distinct := (freed_distinct (sound_settle h d.id d.stamp)).1
    rw [release_eq, List.map_map]
    exact distinct
  · exact .nil

theorem sound_adopt {q : HoldBack} (h : q.Sound) (d : Decision) : (q.adopt d).1.Sound := by
  unfold adopt
  split
  · exact sound_release (sound_settle h d.id d.stamp)
  · exact h

theorem arranged_adopt {q : HoldBack} (h : Arranged q.entries) (d : Decision) :
    Arranged (q.adopt d).1.entries := by
  unfold adopt
  split
  · exact arranged_kept _
  · exact h

/-- An entry with a greater number than all others belongs at the end. -/
theorem arranged_concat {l : List Entry} (h : Arranged l) {e : Entry}
    (above : ∀ x ∈ l, x.stamp.number < e.stamp.number) : Arranged (l ++ [e]) := by
  refine List.pairwise_append.mpr ⟨h, List.pairwise_singleton _ _, fun x hx y hy => ?_⟩
  rw [List.mem_singleton.mp hy]
  apply Entry.precedes_asymm
  exact (Entry.precedes_iff x e).mpr (.inl (above x hx))

/-- The first entry, if there is one, is open, so there is nothing to release. -/
def HeadOpen (q : HoldBack) : Prop := ∀ e, q.entries.head? = some e → e.final = false

theorem headOpen_empty : HeadOpen empty := by
  intro e none
  cases none

theorem headOpen_add {q : HoldBack} (h : q.HeadOpen) (m : Message) (s : Stamp) :
    (q.add m s).1.HeadOpen := by
  unfold add
  split
  · exact h
  · intro e first
    cases entries : q.entries with
    | nil =>
      rw [entries] at first
      cases first
      rfl
    | cons x rest =>
      rw [entries] at first
      exact h e (by rw [entries]; exact first)

theorem headOpen_release (q : HoldBack) : q.release.1.HeadOpen := by
  intro e first
  have stops := List.head?_dropWhile_not Entry.final (arrange q.entries)
  change q.kept.head? = some e at first
  rw [kept] at first
  rw [first] at stops
  exact stops

theorem headOpen_adopt {q : HoldBack} (h : q.HeadOpen) (d : Decision) : (q.adopt d).1.HeadOpen := by
  unfold adopt
  split
  · exact headOpen_release _
  · exact h

theorem arrangeIn_eq_cons {e : Entry} {l : List Entry} (h : Arranged (e :: l)) :
    arrangeIn e l = e :: l := by
  cases l with
  | nil => rfl
  | cons x rest =>
    have later : x.precedes e = false := (List.pairwise_cons.mp h).1 x List.mem_cons_self
    simp [arrangeIn, later]

theorem arrange_eq_self {l : List Entry} (h : Arranged l) : arrange l = l := by
  induction l with
  | nil => rfl
  | cons e rest ih => rw [arrange, ih (List.pairwise_cons.mp h).2, arrangeIn_eq_cons h]

/-- An arranged queue with an open entry at its front is left as it is. -/
theorem release_eq_self {q : HoldBack} (arranged : Arranged q.entries) (blocked : q.HeadOpen) :
    q.release = (q, []) := by
  have order : arrange q.entries = q.entries := arrange_eq_self arranged
  have freed : q.freed = [] ∧ q.kept = q.entries := by
    rw [HoldBack.freed, HoldBack.kept, order]
    cases entries : q.entries with
    | nil => exact ⟨rfl, rfl⟩
    | cons e rest =>
      have first : e.final = false := blocked e (by rw [entries]; rfl)
      simp [first]
  rw [release_eq, freed.1, freed.2]
  simp

/-- A decision whose message was settled with the same stamp, or does not wait, changes nothing. -/
theorem adopt_eq_self {q : HoldBack} (h : q.Sound) (arranged : Arranged q.entries)
    (blocked : q.HeadOpen) {d : Decision}
    (known : ∀ e ∈ q.entries, e.id = d.id → e.final = true ∧ e.stamp = d.stamp) :
    q.adopt d = (q, []) := by
  have same : q.entries.map (fun e => if e.id = d.id then e.settled d.stamp else e) =
      q.entries := by
    refine (List.map_congr_left fun e he => ?_).trans (List.map_id' _)
    split
    · rename_i about
      obtain ⟨final, stamp⟩ := known e he about
      rw [Entry.settled, ← stamp, ← final]
    · rfl
  unfold adopt
  split
  · rw [settle_eq h, same]
    exact release_eq_self arranged blocked
  · rfl

end Concord.HoldBack
