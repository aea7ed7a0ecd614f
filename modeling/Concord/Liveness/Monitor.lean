import Concord.Group.Basic
import Concord.Liveness.Watchlist
import Concord.Run.Stage
import Concord.Run.Ticker
import Concord.Settings
import Concord.Signal
import Concord.StartFault

/-!
Detection of failed members. At every interval the monitor reports who failed and sends a
heartbeat to everyone else it still watches; heartbeats of others are counted as they arrive.
-/

namespace Concord

structure Monitor.Engine where
  watchlist : Watchlist
  ticker : Ticker

structure Monitor where
  group : Group
  stage : Stage Monitor.Engine
  /-- Failures reported and not yet collected, in order. -/
  failed : List MemberId
  sent : List Sent

namespace Monitor

variable [Timer]

def startEngine (settings : Settings) (group : Group) (now : Instant) : Except StartFault Engine :=
  match checkRoom settings.recordRoom with
  | .error e => .error e
  | .ok () =>
    match Ticker.start? now settings.heartbeatInterval with
    | none => .error .zeroPeriod
    | some ticker => .ok ⟨.start group.others settings.toleratedMisses, ticker⟩

def start (settings : Settings) (group : Group) (now : Instant) : Monitor :=
  match startEngine settings group now with
  | .ok engine => ⟨group, .running engine, [], []⟩
  | .error _ => ⟨group, .over .broken, [], []⟩

def heartbeats (m : Monitor) (members : List MemberId) : List (Address × Bytes) :=
  (members.filterMap m.group.addressOf).map fun a => (a, (Signal.heartbeat m.group.self).encode)

/-- One interval: failures first, then heartbeats to those that are left. -/
def tick (now : Instant) (m : Monitor) (w : Watchlist) : Monitor × Watchlist :=
  let (w, failed) := w.tick
  ({ m with failed := m.failed ++ failed, sent := m.sent ++ Sent.all now (m.heartbeats w.live) }, w)

def ticks (now : Instant) : Nat → Monitor → Watchlist → Monitor × Watchlist
  | 0, m, w => (m, w)
  | n + 1, m, w =>
    let (m, w) := m.tick now w
    ticks now n m w

/-- Goes through the intervals that have begun. -/
def settle (now : Instant) (m : Monitor) : Monitor :=
  match m.stage with
  | .running e =>
    let times := e.ticker.due now
    let (m, watchlist) := m.ticks now times e.watchlist
    { m with stage := .running ⟨watchlist, e.ticker.skip times⟩ }
  | _ => m

def due? (m : Monitor) : Option Instant := m.stage.state?.map fun e => e.ticker.next

/-- Only heartbeats count; everything else on this port is ignored. -/
def hear (m : Monitor) (e : Engine) (bytes : Bytes) : Monitor :=
  match Signal.decode bytes with
  | .ok (.heartbeat member) =>
    { m with stage := .running { e with watchlist := e.watchlist.hear member } }
  | _ => m

def arrive (m : Monitor) (a : Arrival) : Monitor :=
  match m.stage with
  | .running e =>
    match a with
    | .datagram _ bytes => m.hear e bytes
    | .cancel => { m with stage := .over .ended }
    | .failure reason => { m with stage := .over (.failed reason) }
  | _ => m

def crash (m : Monitor) : Monitor := { m with stage := .over .ended }

def collected (m : Monitor) : Monitor := { m with failed := [], sent := [] }

end Monitor

end Concord
