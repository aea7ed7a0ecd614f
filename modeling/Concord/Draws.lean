/-!
Random numbers from zero up to, but not including, one. They are drawn one by one from a source,
which is either a list or follows from a seed.
-/

namespace Concord

/-- A source of numbers, and how many of them were drawn. -/
structure Draws where
  source : Nat → Float
  drawn : Nat

namespace Draws

def ofList (l : List Float) : Draws := ⟨fun i => l.getD i 0, 0⟩

def next (d : Draws) : Float × Draws := (d.source d.drawn, { d with drawn := d.drawn + 1 })

/-- Spreads the bits of a number over the whole word. -/
def scramble (z : UInt64) : UInt64 :=
  let z := (z ^^^ (z >>> 30)) * 0xBF58476D1CE4E5B9
  let z := (z ^^^ (z >>> 27)) * 0x94D049BB133111EB
  z ^^^ (z >>> 31)

/-- The fraction that the upper 53 bits stand for, which is below one. -/
def fraction (bits : UInt64) : Float :=
  (bits >>> 11).toFloat / 9007199254740992

/-- Numbers that follow from a seed. -/
def seeded (seed : UInt64) : Draws :=
  ⟨fun i => fraction (scramble (seed + (i + 1).toUInt64 * 0x9E3779B97F4A7C15)), 0⟩

/-- Whether the next numbers are all in range. -/
def allInRange (d : Draws) : Nat → Bool
  | 0 => true
  | n + 1 =>
    let (u, d) := d.next
    decide (0 ≤ u) && decide (u < 1) && d.allInRange n

end Draws

end Concord
