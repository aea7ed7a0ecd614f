import Concord.Time.Timer

/-!
The timers that the program has: they go off on whole milliseconds, and none waits for more than
thirty years of 365 days.
-/

namespace Concord.Timer

def longestWait : Span := .ofSeconds (30 * 365 * 86400)

instance onMillis : Timer where
  wait s := if longestWait.nanos < s.nanos then longestWait else s
  roundUp t := (t + 999999) / 1000000 * 1000000
  reach := longestWait
  wait_pos h := by
    split
    · decide
    · exact h
  wait_eq near := if_neg (Nat.not_lt.mpr near)
  le_roundUp t := by
    have whole (n : Nat) : n ≤ (n + 999999) / 1000000 * 1000000 := by omega
    exact whole t
  roundUp_mono h := Nat.mul_le_mul_right _ (Nat.div_le_div_right (Nat.add_le_add_right h _))
  roundUp_roundUp t := by
    have whole (n : Nat) : (n * 1000000 + 999999) / 1000000 * 1000000 = n * 1000000 := by omega
    exact whole _
  roundUp_zero := rfl

end Concord.Timer
