import Concord.Data.Table
import Concord.Record.Basic

/-!
The proposals collected for one message, one number per member.
-/

namespace Concord

abbrev Ballot := Table MemberId UInt32

namespace Ballot

/-- The greater number wins, and of equal numbers the one with the smaller proposer. -/
def better (a b : Stamp) : Bool :=
  b.number < a.number || (a.number == b.number && a.proposer.rank < b.proposer.rank)

def best? : List (MemberId × UInt32) → Option Stamp
  | [] => none
  | (member, number) :: rest =>
    match best? rest with
    | none => some ⟨number, member⟩
    | some s => if better s ⟨number, member⟩ then some s else some ⟨number, member⟩

/-- The stamp that wins the ballot; an empty ballot has none. -/
def winner? (b : Ballot) : Option Stamp := best? b.entries

end Ballot

end Concord
