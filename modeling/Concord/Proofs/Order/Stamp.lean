import Concord.Proofs.Order.HoldBack

/-!
Final stamps are in a strict total order, and the order of release agrees with it.
-/

namespace Concord

namespace Stamp

theorem precedes_iff {s t : Stamp} : s.precedes t = true ↔
    s.number < t.number ∨ s.number = t.number ∧ s.proposer.rank < t.proposer.rank := by
  simp [precedes]

theorem precedes_irrefl (s : Stamp) : ¬ s.precedes s = true := by
  rw [precedes_iff]
  grind

theorem precedes_trans {s t u : Stamp} (h : s.precedes t = true) (k : t.precedes u = true) :
    s.precedes u = true := by
  rw [precedes_iff] at *
  grind

theorem precedes_asymm {s t : Stamp} (h : s.precedes t = true) : ¬ t.precedes s = true :=
  fun k => precedes_irrefl s (precedes_trans h k)

/-- Different stamps stand one before the other. -/
theorem precedes_total {s t : Stamp} (h : s ≠ t) : s.precedes t = true ∨ t.precedes s = true := by
  obtain ⟨n, ⟨a⟩⟩ := s
  obtain ⟨k, ⟨b⟩⟩ := t
  have differ : ¬ (n = k ∧ a = b) := by
    rintro ⟨rfl, rfl⟩
    exact h rfl
  simp only [precedes_iff]
  grind

theorem not_precedes_of_lt {s t : Stamp} (h : s.number < t.number) : t.precedes s = false := by
  rw [← Bool.not_eq_true]
  exact precedes_asymm (precedes_iff.mpr (.inl h))

theorem number_le_of_precedes {s t : Stamp} (h : s.precedes t = true) : s.number ≤ t.number := by
  rw [precedes_iff] at h
  grind

end Stamp

/-- An entry that cannot come before a final stamp any more: its own stamp is greater, and if it is
open, so is its number, which can only grow. -/
def HoldBack.Entry.Behind (s : Stamp) (e : Entry) : Prop :=
  if e.final then s.precedes e.stamp = true else s.number < e.stamp.number

namespace HoldBack.Entry

theorem precedes_of_final {a b : Entry} (ha : a.final = true) (hb : b.final = true) :
    a.precedes b = a.stamp.precedes b.stamp := by
  simp [precedes, Stamp.precedes, ha, hb]

theorem behind_open {s : Stamp} {e : Entry} (h : e.final = false) :
    e.Behind s ↔ s.number < e.stamp.number := by
  simp [Behind, h]

theorem behind_final {s : Stamp} {e : Entry} (h : e.final = true) :
    e.Behind s ↔ s.precedes e.stamp = true := by
  simp [Behind, h]

/-- What may be released after a final entry is behind it, unless it is final with the same
stamp. -/
theorem behind_of_not_precedes {a b : Entry} (final : a.final = true)
    (order : b.precedes a = false) (distinct : b.final = true → b.stamp ≠ a.stamp) :
    b.Behind a.stamp := by
  have order : ¬ b.precedes a = true := by simp [order]
  cases open_or : b.final with
  | false =>
    rw [behind_open open_or]
    simp only [precedes, Bool.or_eq_true, decide_eq_true_eq, Bool.and_eq_true] at order
    grind
  | true =>
    rw [behind_final open_or]
    apply (Stamp.precedes_total (distinct open_or)).resolve_left
    intro before
    apply order
    rw [Stamp.precedes_iff] at before
    simp only [precedes, Bool.or_eq_true, decide_eq_true_eq, Bool.and_eq_true]
    grind

end HoldBack.Entry

/-- An entry that cannot be released with a stamp before this one: a final one has no such stamp, and
an open one has a greater number, which can only grow. -/
def HoldBack.Entry.NotBefore (s : Stamp) (e : Entry) : Prop :=
  if e.final then e.stamp.precedes s = false else s.number < e.stamp.number

namespace HoldBack.Entry

theorem notBefore_open {s : Stamp} {e : Entry} (h : e.final = false) :
    e.NotBefore s ↔ s.number < e.stamp.number := by
  simp [NotBefore, h]

theorem notBefore_final {s : Stamp} {e : Entry} (h : e.final = true) :
    e.NotBefore s ↔ e.stamp.precedes s = false := by
  simp [NotBefore, h]

/-- Whatever does not precede a final entry comes with no stamp before it. -/
theorem notBefore_of_not_precedes {a b : Entry} (final : a.final = true)
    (order : b.precedes a = false) : b.NotBefore a.stamp := by
  have order : ¬ b.precedes a = true := by simp [order]
  simp only [precedes, Bool.or_eq_true, decide_eq_true_eq, Bool.and_eq_true] at order
  cases open_or : b.final with
  | false =>
    rw [notBefore_open open_or]
    grind
  | true =>
    rw [notBefore_final open_or, ← Bool.not_eq_true, Stamp.precedes_iff]
    grind

/-- An entry that comes with no stamp before this one still does not when its message is decided. -/
theorem NotBefore.settled {s t : Stamp} {e : Entry} (h : e.NotBefore s)
    (grows : e.final = false → e.stamp.number ≤ t.number) (same : e.final = true → e.stamp = t) :
    (e.settled t).NotBefore s := by
  rw [notBefore_final rfl]
  cases known : e.final with
  | true => exact same known ▸ (notBefore_final known).mp h
  | false =>
    have lt := (notBefore_open known).mp h
    exact Stamp.not_precedes_of_lt (UInt32.lt_of_lt_of_le lt (grows known))

end HoldBack.Entry

end Concord
