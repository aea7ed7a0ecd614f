import Concord.Proofs.Order.Stamp

/-!
What a release takes from a queue, told without the order in which it looks: the final entries whose
numbers are below those of all open ones. They come in the order of their stamps, and entries with
equal stamps as they stood in the queue. What is left stays until a message is settled.
-/

namespace Concord.HoldBack

/-- A call of a queue. -/
inductive Call where
  | add (m : Message) (s : Stamp)
  | settle (id : MessageId) (s : Stamp)
  | release

def perform (q : HoldBack) : Call → HoldBack
  | .add m s => (q.add m s).1
  | .settle id s => (q.settle id s).1
  | .release => q.release.1

def run (q : HoldBack) (calls : List Call) : HoldBack := calls.foldl perform q

/-- A final entry that no open one holds back. -/
def Clear (q : HoldBack) (e : Entry) : Prop :=
  e.final = true ∧ ∀ x ∈ q.entries, x.final = false → e.stamp.number < x.stamp.number

instance (q : HoldBack) (e : Entry) : Decidable (q.Clear e) := inferInstanceAs (Decidable (_ ∧ _))

/-- Every entry is held back. -/
def Stuck (q : HoldBack) : Prop := ∀ e ∈ q.entries, ¬ q.Clear e

variable {q : HoldBack}

/-- An open entry comes before a final one unless its number is greater. -/
theorem Entry.not_precedes_iff_of_open {x e : Entry} (provisional : x.final = false)
    (final : e.final = true) : x.precedes e = false ↔ e.stamp.number < x.stamp.number := by
  rw [← Bool.not_eq_true, Entry.precedes_iff]
  simp only [provisional, final]
  grind

theorem clear_of_mem_freed {e : Entry} (h : e ∈ q.freed) : q.Clear e := by
  have final := final_of_mem_freed h
  refine ⟨final, fun x hx provisional => ?_⟩
  rcases mem_entries_iff.mp hx with freed | kept
  · cases provisional.symm.trans (final_of_mem_freed freed)
  · exact (Entry.not_precedes_iff_of_open provisional final).mp (kept_behind_freed h kept)

/-- The open entry at the front of what a release keeps holds back all that follow it. -/
theorem stuck_release (q : HoldBack) : q.release.1.Stuck := by
  have arranged := q.arranged_kept
  have headOpen := q.headOpen_release
  rintro e (he : e ∈ q.kept) ⟨final, below⟩
  change ∀ x, q.kept.head? = some x → _ at headOpen
  change ∀ x ∈ q.kept, _ at below
  cases kept : q.kept with
  | nil =>
    rw [kept] at he
    cases he
  | cons first rest =>
    rw [kept] at he headOpen below arranged
    have provisional := headOpen first rfl
    have lt := below first List.mem_cons_self provisional
    rcases List.mem_cons.mp he with rfl | later
    · exact UInt32.lt_irrefl _ lt
    · have behind := (List.pairwise_cons.mp arranged).1 e later
      rw [(Entry.precedes_iff e first).mpr (.inl lt)] at behind
      cases behind

theorem not_clear_of_mem_kept {e : Entry} (h : e ∈ q.kept) : ¬ q.Clear e := by
  rintro ⟨final, below⟩
  exact stuck_release q e h ⟨final, fun x hx => below x (mem_entries_iff.mpr (.inr hx))⟩

/-- What a release takes off the queue is what nothing holds back. -/
theorem freed_eq_filter (q : HoldBack) : q.freed = (arrange q.entries).filter (q.Clear ·) := by
  have all : q.freed.filter (q.Clear ·) = q.freed :=
    List.filter_eq_self.mpr fun e he => decide_eq_true (clear_of_mem_freed he)
  have none : q.kept.filter (q.Clear ·) = [] :=
    List.filter_eq_nil_iff.mpr fun e he clear => not_clear_of_mem_kept he (of_decide_eq_true clear)
  rw [← q.freed_append_kept, List.filter_append, all, none, List.append_nil]

/-- Of entries that tie, none is moved past another one. -/
theorem filter_arrangeIn {test : Entry → Bool}
    (tie : ∀ a b, test a = true → test b = true → a.precedes b = false) (e : Entry)
    (l : List Entry) : (arrangeIn e l).filter test = (e :: l).filter test := by
  induction l with
  | nil => rfl
  | cons x rest ih =>
    unfold arrangeIn
    split
    · rename_i first
      rw [List.filter_cons, ih, List.filter_cons, List.filter_cons, List.filter_cons]
      by_cases passes : test x = true
      · have other : ¬ test e = true := fun here => by
          rw [tie x e passes here] at first
          cases first
        simp only [if_neg other]
      · simp only [if_neg passes]
    · rfl

theorem filter_arrange {test : Entry → Bool}
    (tie : ∀ a b, test a = true → test b = true → a.precedes b = false) (l : List Entry) :
    (arrange l).filter test = l.filter test := by
  induction l with
  | nil => rfl
  | cons e rest ih =>
    rw [arrange, filter_arrangeIn tie, List.filter_cons, ih, List.filter_cons]

theorem filter_freed (q : HoldBack) (s : Stamp) : q.freed.filter (·.stamp = s) =
    q.entries.filter fun e => decide (q.Clear e) && decide (e.stamp = s) := by
  rw [← filter_arrange (fun a b ha hb => ?_) q.entries, freed_eq_filter, List.filter_filter]
  · exact List.filter_congr fun e _ => Bool.and_comm _ _
  · simp only [Bool.and_eq_true, decide_eq_true_eq] at ha hb
    rw [← Bool.not_eq_true, Entry.precedes_iff, ha.1.1, hb.1.1, ha.2, hb.2]
    grind

theorem release_of_stuck (h : q.Stuck) : q.release.2 = [] := by
  have none : q.freed = [] := List.eq_nil_iff_forall_not_mem.mpr fun e freed =>
    h e (mem_entries_iff.mpr (.inl freed)) (clear_of_mem_freed freed)
  rw [release_eq, none]
  rfl

/-- A new entry is open, so it only holds back more. -/
theorem stuck_add (h : q.Stuck) (m : Message) (s : Stamp) : (q.add m s).1.Stuck := by
  unfold add
  split
  · exact h
  · rintro e he ⟨final, below⟩
    rcases List.mem_append.mp he with old | new
    · exact h e old ⟨final, fun x hx => below x (List.mem_append_left _ hx)⟩
    · rw [List.mem_singleton.mp new] at final
      cases final

theorem stuck_run (h : q.Stuck) {calls : List Call}
    (unsettled : ∀ call ∈ calls, ∀ id s, call ≠ .settle id s) : (q.run calls).Stuck := by
  induction calls generalizing q with
  | nil => exact h
  | cons call rest ih =>
    obtain ⟨here, later⟩ := List.forall_mem_cons.mp unsettled
    refine ih ?_ later
    cases call with
    | add m s => exact stuck_add h m s
    | settle id s => exact absurd rfl (here id s)
    | release => exact stuck_release q

/-- Of any queue whatever, a release takes the final entries whose numbers are below those of all
open ones, in the order of their stamps, and of equal stamps in that of the queue. It loses nothing,
leaves the rest in the order of release, and nothing more comes free before a message is settled. -/
theorem release_exact (q : HoldBack) : ∃ freed : List Entry,
    q.release.2 = freed.map Entry.message ∧
    (∀ e, e ∈ freed ↔ e ∈ q.entries ∧ q.Clear e) ∧
    freed.Pairwise (fun a b => b.stamp.precedes a.stamp = false) ∧
    (∀ s, freed.filter (·.stamp = s) =
      q.entries.filter fun e => decide (q.Clear e) && decide (e.stamp = s)) ∧
    (freed ++ q.release.1.entries).Perm q.entries ∧
    Arranged q.release.1.entries ∧
    ∀ calls : List Call, (∀ call ∈ calls, ∀ id s, call ≠ .settle id s) →
      (q.release.1.run calls).release.2 = [] := by
  refine ⟨q.freed, rfl, fun e => ?_, ?_, q.filter_freed, q.freed_append_kept_perm,
    q.arranged_kept, fun calls unsettled => ?_⟩
  · rw [freed_eq_filter, List.mem_filter, (arrange_perm _).mem_iff, decide_eq_true_eq]
  · refine q.arranged_freed.imp_of_mem fun {a b} ha hb order => ?_
    rwa [← Entry.precedes_of_final (final_of_mem_freed hb) (final_of_mem_freed ha)]
  · exact release_of_stuck (stuck_run (stuck_release q) unsettled)

/-- An open entry holds back a final one of its own number, whoever proposed it. -/
example :
    let low : Message := ⟨⟨⟨1⟩, 1⟩, 7⟩
    let other : Message := ⟨⟨⟨2⟩, 1⟩, 8⟩
    let high : Message := ⟨⟨⟨3⟩, 1⟩, 9⟩
    let q : HoldBack := ⟨[high.id, other.id, low.id],
      [⟨high, ⟨5, ⟨1⟩⟩, true⟩, ⟨other, ⟨5, ⟨2⟩⟩, false⟩, ⟨low, ⟨4, ⟨2⟩⟩, true⟩]⟩
    q.release.2 = [low] := by decide

end Concord.HoldBack
