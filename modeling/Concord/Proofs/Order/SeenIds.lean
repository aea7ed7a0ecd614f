import Concord.Order.SeenIds

/-!
The watermark and the numbers above it are one set: moving the watermark changes nothing about
which numbers count as delivered.
-/

namespace Concord.SeenIds

theorem contains_iff {s : SeenIds} {n : UInt32} :
    s.contains n = true ↔ n ≤ s.watermark ∨ n ∈ s.above := by
  simp [contains]

theorem next?_eq_some_iff {w n : UInt32} : next? w = some n ↔ n.toNat = w.toNat + 1 := by
  have last : w = 0xFFFFFFFF ↔ w.toNat = 0xFFFFFFFF := UInt32.toNat_inj.symm
  have small := w.toNat_lt
  have room := n.toNat_lt
  have succ : (w + 1).toNat = (w.toNat + 1) % 2 ^ 32 := UInt32.toNat_add ..
  by_cases atEnd : w = 0xFFFFFFFF
  · have := last.mp atEnd
    simp only [next?, if_pos atEnd, reduceCtorEq, false_iff]
    omega
  · have := mt last.mpr atEnd
    rw [next?, if_neg atEnd, Option.some.injEq, ← UInt32.toNat_inj]
    omega

theorem le_next?_iff {w n x : UInt32} (h : next? w = some n) : x ≤ n ↔ x ≤ w ∨ x = n := by
  have next := next?_eq_some_iff.mp h
  rw [UInt32.le_iff_toNat_le, UInt32.le_iff_toNat_le, ← UInt32.toNat_inj]
  omega

theorem contains_advance (steps : Nat) (s : SeenIds) (x : UInt32) :
    (advance steps s).contains x = s.contains x := by
  induction steps generalizing s with
  | zero => rfl
  | succ steps ih =>
    unfold advance
    split
    · rfl
    · rename_i n hn
      split
      · rename_i listed
        rw [ih, Bool.eq_iff_iff, contains_iff, contains_iff, le_next?_iff hn, Roll.mem_erase]
        constructor
        · rintro ((below | rfl) | ⟨above, -⟩)
          · exact .inl below
          · exact .inr listed
          · exact .inr above
        · rintro (below | above)
          · exact .inl (.inl below)
          · by_cases same : x = n
            · exact .inl (.inr same)
            · exact .inr ⟨above, same⟩
      · rfl

theorem contains_insert (s : SeenIds) (n x : UInt32) :
    (s.insert n).contains x = true ↔ x = n ∨ s.contains x = true := by
  unfold insert
  split
  · rename_i below
    constructor
    · exact .inr
    · rintro (rfl | seen)
      · exact contains_iff.mpr (.inl below)
      · exact seen
  · rw [contains_advance, contains_iff, contains_iff, Roll.mem_insert]
    exact or_left_comm

end Concord.SeenIds
