import Concord.Proofs.Retry.Schedule
import Mathlib.Algebra.Group.Nat.Defs
import Mathlib.Data.Nat.Find
import Mathlib.Order.Bounds.Basic

/-!
The pauses of a schedule in closed form. Under a ceiling short of the greatest span they go round:
every pause is the base doubled a number of times, and the number is that of the pauses before it,
modulo the length of a round. Under the greatest span they grow until they reach it.
-/

namespace Concord

namespace Span

/-- What a word of 64 bits holds. -/
def word? (n : Nat) : Option Nat := if n < UInt64.size then some n else none

theorem word?_of_lt {n : Nat} (h : n < UInt64.size) : word? n = some n := if_pos h

theorem word?_of_le {n : Nat} (h : UInt64.size ≤ n) : word? n = none := if_neg (Nat.not_lt.mpr h)

/-- Doubles seconds and the nanoseconds beyond them. The nanoseconds are doubled without a check, so
there is no result if that is too much for a word. Where it is the seconds that are too many, the
result is the greatest span. -/
def doubleParts? (parts : Nat × Nat) : Option (Nat × Nat) :=
  (word? (2 * parts.2)).map fun doubled =>
    match (word? (2 * parts.1)).bind fun seconds => word? (seconds + doubled / 1000000000) with
    | some seconds => (seconds, doubled % 1000000000)
    | none => max.parts

/-- To double a span in its parts is to double it, and nothing overflows on the way. -/
theorem doubleParts?_parts (s : Span) : doubleParts? s.parts = some s.double.parts := by
  have words : UInt64.size = 18446744073709551616 := rfl
  have most : maxNanos = 18446744073709551615999999999 := rfl
  have bound := s.le_max
  have double : s.double.parts = ((min (2 * s.nanos) maxNanos) / 1000000000,
      (min (2 * s.nanos) maxNanos) % 1000000000) := rfl
  have fraction : 2 * (s.nanos % 1000000000) < UInt64.size := by omega
  rw [double, doubleParts?, parts, word?_of_lt fraction, Option.map_some]
  dsimp only
  by_cases fits : 2 * s.nanos ≤ maxNanos
  · rw [word?_of_lt (by omega), Option.bind_some, word?_of_lt (by omega), Nat.min_eq_left fits]
    refine congrArg some (Prod.ext ?_ ?_) <;> dsimp only <;> omega
  · have sum : ((word? (2 * (s.nanos / 1000000000))).bind fun seconds =>
        word? (seconds + 2 * (s.nanos % 1000000000) / 1000000000)) = none := by
      by_cases many : UInt64.size ≤ 2 * (s.nanos / 1000000000)
      · rw [word?_of_le many, Option.bind_none]
      · rw [word?_of_lt (Nat.not_le.mp many), Option.bind_some, word?_of_le (by omega)]
    rw [sum, Nat.min_eq_right (Nat.le_of_not_le fits)]
    rfl

end Span

namespace Schedule

/-- What is asked of a schedule. -/
inductive Call where
  | next
  | reset

def ask (s : Schedule) : Call → Schedule
  | .next => s.next.2
  | .reset => s.reset

def run (s : Schedule) (calls : List Call) : Schedule := calls.foldl ask s

def tally (n : Nat) : Call → Nat
  | .next => n + 1
  | .reset => 0

/-- The number of pauses since the schedule was started or started over. -/
def pauses (calls : List Call) : Nat := calls.foldl tally 0

variable {s : Schedule}

theorem run_eq_after (fresh : s.current = s.base) (calls : List Call) :
    s.run calls = s.after (pauses calls) := by
  have onward (n : Nat) : (s.after n).run calls = s.after (calls.foldl tally n) := by
    induction calls generalizing n with
    | nil => rfl
    | cons call later ih =>
      cases call with
      | next => exact ih (n + 1)
      | reset =>
        refine Eq.trans ?_ (ih 0)
        rw [run, List.foldl_cons, ask, reset_after fresh]
        rfl
  exact onward 0

theorem after_frame (s : Schedule) (n : Nat) :
    (s.after n).base = s.base ∧ (s.after n).ceiling = s.ceiling := by
  induction n with
  | zero => exact ⟨rfl, rfl⟩
  | succ n ih => exact ih

theorem nanos_double (s : Span) : s.double.nanos = min (2 * s.nanos) Span.maxNanos := rfl

theorem nanos_after_succ (s : Schedule) (n : Nat) : (s.after (n + 1)).current.nanos =
    if s.ceiling.nanos < min (2 * (s.after n).current.nanos) Span.maxNanos then s.base.nanos
    else min (2 * (s.after n).current.nanos) Span.maxNanos := by
  obtain ⟨base, ceiling⟩ := s.after_frame n
  rw [← nanos_double, ← base, ← ceiling, after, next]
  dsimp only
  split <;> rfl

/-- Every pause lies between the base and the ceiling. -/
theorem after_bounds (fresh : s.current = s.base) (n : Nat) :
    s.base.nanos ≤ (s.after n).current.nanos ∧ (s.after n).current.nanos ≤ s.ceiling.nanos := by
  induction n with
  | zero =>
    rw [after, fresh]
    exact ⟨Nat.le_refl _, s.base_le_ceiling⟩
  | succ n ih =>
    have := (s.after n).current.le_max
    have := s.base_le_ceiling
    rw [nanos_after_succ]
    split <;> omega

/-- The base must be doubled so often before it exceeds the ceiling. -/
def Cycle (base ceiling : Span) (k : Nat) : Prop :=
  IsLeast {k | ceiling.nanos < base.nanos * 2 ^ k} k

theorem exists_cycle {base ceiling : Span} (pos : 0 < base.nanos) : ∃ k, Cycle base ceiling k := by
  have exceeds : ∃ k, ceiling.nanos < base.nanos * 2 ^ k :=
    ⟨ceiling.nanos, Nat.lt_of_lt_of_le Nat.lt_two_pow_self (Nat.le_mul_of_pos_left _ pos)⟩
  classical
  exact ⟨Nat.find exceeds, Nat.find_spec exceeds, fun k hk => Nat.find_min' exceeds hk⟩

theorem Cycle.le_ceiling {base ceiling : Span} {j k : Nat} (cycle : Cycle base ceiling k)
    (less : j < k) : base.nanos * 2 ^ j ≤ ceiling.nanos := by
  apply Nat.le_of_not_lt
  intro exceeds
  exact Nat.not_le_of_lt less (cycle.2 exceeds)

/-- Under a ceiling short of the greatest span the pauses go round. -/
theorem nanos_after_of_lt (fresh : s.current = s.base) (short : s.ceiling.nanos < Span.maxNanos)
    {k : Nat} (cycle : Cycle s.base s.ceiling k) (n : Nat) :
    (s.after n).current.nanos = s.base.nanos * 2 ^ (n % k) := by
  have some : 0 < k := by
    refine Nat.pos_of_ne_zero fun none => ?_
    have exceeds : s.ceiling.nanos < s.base.nanos * 2 ^ k := cycle.1
    rw [none, Nat.pow_zero, Nat.mul_one] at exceeds
    exact Nat.not_le_of_lt exceeds s.base_le_ceiling
  induction n with
  | zero => rw [after, fresh, Nat.zero_mod, Nat.pow_zero, Nat.mul_one]
  | succ n ih =>
    have doubled : 2 * (s.base.nanos * 2 ^ (n % k)) = s.base.nanos * 2 ^ (n % k + 1) := by
      rw [Nat.pow_succ, Nat.mul_comm, Nat.mul_assoc]
    rw [nanos_after_succ, ih, doubled]
    rcases Nat.lt_or_eq_of_le (show n % k + 1 ≤ k from Nat.mod_lt n some) with within | last
    · -- doubling stays below the ceiling
      have below := cycle.le_ceiling within
      have place : (n + 1) % k = n % k + 1 := by
        rw [Nat.add_mod, Nat.mod_eq_of_lt (Nat.lt_of_le_of_lt (Nat.le_add_left 1 _) within)]
        exact Nat.mod_eq_of_lt within
      rw [place, if_neg (by omega)]
      omega
    · have exceeds : s.ceiling.nanos < s.base.nanos * 2 ^ (n % k + 1) := by
        rw [last]
        exact cycle.1
      have place : (n + 1) % k = 0 := by
        rw [← Nat.mod_add_mod, last, Nat.mod_self]
      rw [place, if_pos (by omega), Nat.pow_zero, Nat.mul_one]

/-- Under the greatest span the pauses grow until they reach it. -/
theorem nanos_after_of_max (fresh : s.current = s.base) (greatest : s.ceiling.nanos = Span.maxNanos)
    (n : Nat) : (s.after n).current.nanos = min (s.base.nanos * 2 ^ n) Span.maxNanos := by
  induction n with
  | zero =>
    rw [after, fresh, Nat.pow_zero, Nat.mul_one]
    exact (Nat.min_eq_left s.base.le_max).symm
  | succ n ih =>
    have doubled : s.base.nanos * 2 ^ (n + 1) = 2 * (s.base.nanos * 2 ^ n) := by
      rw [Nat.pow_succ, Nat.mul_comm 2, Nat.mul_assoc]
    rw [nanos_after_succ, if_neg (by omega), ih, doubled]
    omega

/-- The next pause, after any calls. Nothing overflows in the seconds and nanoseconds in which it is
doubled. -/
theorem pause_closed_form {base ceiling : Span} (pos : 0 < base.nanos)
    (ordered : base.nanos ≤ ceiling.nanos) :
    ∃ s, start base ceiling = .ok s ∧ ∀ calls : List Call,
      (ceiling ≠ .max → ∃ k, Cycle base ceiling k ∧
        (s.run calls).next.1.nanos = base.nanos * 2 ^ (pauses calls % k)) ∧
      (ceiling = .max →
        (s.run calls).next.1.nanos = min (base.nanos * 2 ^ pauses calls) Span.max.nanos) ∧
      base.nanos ≤ (s.run calls).next.1.nanos ∧ (s.run calls).next.1.nanos ≤ ceiling.nanos ∧
      (s.run calls).next.1.isZero = false ∧
      Span.doubleParts? (s.run calls).next.1.parts = some (s.run calls).next.1.double.parts := by
  let s : Schedule := ⟨base, base, ceiling, pos, ordered⟩
  have started : start base ceiling = .ok s := by rw [start, dif_pos pos, dif_pos ordered]
  refine ⟨s, started, fun calls => ?_⟩
  have next : (s.run calls).next.1 = (s.after (pauses calls)).current := by
    rw [run_eq_after rfl]
    rfl
  rw [next]
  obtain ⟨least, most⟩ := after_bounds (s := s) rfl (pauses calls)
  refine ⟨fun short => ?_, fun greatest => ?_, least, most, ?_, Span.doubleParts?_parts _⟩
  · obtain ⟨k, cycle⟩ : ∃ k, Cycle base ceiling k := exists_cycle pos
    refine ⟨k, cycle, nanos_after_of_lt rfl ?_ cycle _⟩
    refine Nat.lt_of_le_of_ne ceiling.le_max fun same => short ?_
    obtain ⟨nanos, bound⟩ := ceiling
    cases same
    rfl
  · exact nanos_after_of_max rfl (congrArg Span.nanos greatest) _
  · exact decide_eq_false (Nat.ne_of_gt (Nat.lt_of_lt_of_le pos least))

/-- Twice the base is beyond the greatest span, so every pause is the base: a doubled pause stops at
the greatest span and exceeds the ceiling, which is a nanosecond less. -/
theorem pause_closed_form_of_overflow :
    let base : Span := .ofNanos (Span.maxNanos / 2 + 1)
    let ceiling : Span := .ofNanos (Span.maxNanos - 1)
    0 < base.nanos ∧ base.nanos ≤ ceiling.nanos ∧
    ∃ s, start base ceiling = .ok s ∧ ∃ k, Cycle base ceiling k ∧
      (s.run [.next, .reset, .next, .next]).next.1.nanos = base.nanos * 2 ^ (2 % k) := by
  intro base ceiling
  have pos : 0 < base.nanos := by decide
  have ordered : base.nanos ≤ ceiling.nanos := by decide
  obtain ⟨s, started, form⟩ := pause_closed_form pos ordered
  exact ⟨pos, ordered, s, started, (form [.next, .reset, .next, .next]).1 (by decide)⟩

end Schedule

end Concord
