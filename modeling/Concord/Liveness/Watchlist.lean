import Concord.Data.Table
import Concord.Member

/-!
Members that are expected to send heartbeats, each with the number of intervals it may still miss.
A heartbeat restores that number. A member that misses one more is reported once and then no
longer watched.
-/

namespace Concord

structure Watchlist where
  tolerance : UInt32
  left : Table MemberId UInt32

namespace Watchlist

def start (members : List MemberId) (tolerance : UInt32) : Watchlist :=
  ⟨tolerance, .ofList ((Roll.ofList members).toList.map fun m => (m, tolerance))⟩

def hear (w : Watchlist) (m : MemberId) : Watchlist :=
  if w.left.contains m then { w with left := w.left.put m w.tolerance } else w

/-- One interval passes. Also answers the members that failed, in ascending order. -/
def tick (w : Watchlist) : Watchlist × List MemberId :=
  ({ w with left := (w.left.filter fun _ n => n ≠ 0).mapValues fun _ n => n - 1 },
    (w.left.filter fun _ n => n = 0).keys)

/-- The members that have not failed. -/
def live (w : Watchlist) : List MemberId := w.left.keys

end Watchlist

end Concord
