import Concord.Data.Roll

/-!
The numbers of one sender's messages that were delivered: all up to a watermark, and those above
it that were delivered out of turn. The watermark moves up as soon as the next number is there.
-/

namespace Concord

structure SeenIds where
  watermark : UInt32
  above : Roll UInt32

namespace SeenIds

def none : SeenIds := ⟨0, .empty⟩

instance : Inhabited SeenIds := ⟨none⟩

/-- The number after the watermark, which does not exist at the end of the range. -/
def next? (w : UInt32) : Option UInt32 := if w = 0xFFFFFFFF then .none else some (w + 1)

/-- Moves the watermark over the numbers that follow it without a gap. One number leaves the roll
in each step, so as many steps suffice as the roll has entries. -/
def advance : Nat → SeenIds → SeenIds
  | 0, s => s
  | steps + 1, s =>
    match next? s.watermark with
    | .none => s
    | some n => if n ∈ s.above then advance steps ⟨n, s.above.erase n⟩ else s

def insert (s : SeenIds) (n : UInt32) : SeenIds :=
  if n ≤ s.watermark then s
  else
    let above := s.above.insert n
    advance above.toList.length ⟨s.watermark, above⟩

/-- Number zero counts as delivered from the start: senders count from one. -/
def contains (s : SeenIds) (n : UInt32) : Bool := n ≤ s.watermark || decide (n ∈ s.above)

end SeenIds

end Concord
