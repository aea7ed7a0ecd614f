import Concord.Time.Timer

/-!
A run on a clock that moves only when told to. Timers go off at the readings of their clock; between
two of them nothing happens, so the clock leaps from one to the next.
-/

namespace Concord.Clock

variable {σ : Type} [Timer]

/-- Lets a state settle at every instant up to `limit` at which it is due. Settling leaves nothing
due, so every leap takes some time. -/
def leap (due? : σ → Option Instant) (settle : Instant → σ → σ) (limit : Instant) :
    Nat → σ → σ
  | 0, s => s
  | leaps + 1, s =>
    match due? s with
    | none => s
    | some due =>
      if Instant.roundUp due ≤ limit then
        leap due? settle limit leaps (settle (Instant.roundUp due) s)
      else s

/-- When a rest of some milliseconds is over. A rest waits as a timer does. -/
def restEnd (now : Instant) (millis : Nat) : Instant :=
  Instant.roundUp (Instant.after now (.ofMillis millis))

theorem le_restEnd (now : Instant) (millis : Nat) : now ≤ restEnd now millis :=
  Nat.le_trans (Nat.le_add_right _ _) (Instant.le_roundUp _)

/-- The state after a rest. -/
def elapse (due? : σ → Option Instant) (settle : Instant → σ → σ) (now : Instant) (millis : Nat)
    (s : σ) : σ :=
  let limit := restEnd now millis
  leap due? settle limit (limit - now + 1) s

end Concord.Clock
