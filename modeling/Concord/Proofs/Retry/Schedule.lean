import Concord.Retry.Schedule

/-!
The pauses of a schedule in a row. Starting over leads back to the schedule that was started, and
no pause is empty.
-/

namespace Concord.Schedule

variable {base ceiling : Span} {s : Schedule}

/-- The schedule after a number of pauses. -/
def after (s : Schedule) : Nat → Schedule
  | 0 => s
  | n + 1 => (s.after n).next.2

/-- The pause that comes after `n` others. -/
def pause (s : Schedule) (n : Nat) : Span := (s.after n).next.1

theorem start_eq_ok (h : start base ceiling = .ok s) : s.current = s.base := by
  unfold start at h
  split at h
  · split at h
    · cases h
      rfl
    · cases h
  · cases h

theorem reset_after (fresh : s.current = s.base) (n : Nat) : (s.after n).reset = s := by
  induction n with
  | zero =>
    obtain ⟨current, base, ceiling, _, _⟩ := s
    cases fresh
    rfl
  | succ n ih => exact ih

theorem next_pos (h : 0 < s.current.nanos) : 0 < s.next.2.current.nanos := by
  have doubled : 0 < s.current.double.nanos := by
    have : 0 < Span.maxNanos := by decide
    simp only [Span.double, Span.ofNanos]
    omega
  simp only [next]
  split
  · exact s.base_pos
  · exact doubled

theorem pause_pos (fresh : s.current = s.base) (n : Nat) : 0 < (s.pause n).nanos := by
  have current : 0 < (s.after n).current.nanos := by
    induction n with
    | zero => exact fresh ▸ s.base_pos
    | succ n ih => exact next_pos ih
  exact current

end Concord.Schedule
