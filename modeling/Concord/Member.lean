import Concord.Data.Roll

/-!
Members of the group are known by their rank in the list of hosts, counted from one. The smaller
rank wins a tie between equal sequence numbers.
-/

namespace Concord

structure MemberId where
  rank : UInt32
deriving DecidableEq, Inhabited

instance : Ranked MemberId where
  rank m := m.rank.toNat
  rank_inj := by
    rintro ⟨a⟩ ⟨b⟩ h
    exact congrArg MemberId.mk (UInt32.toNat.inj h)

namespace MemberId

def text (m : MemberId) : String := toString m.rank.toNat

/-- The form used in reports of a member's state. -/
def label (m : MemberId) : String := "P" ++ m.text

end MemberId

end Concord
