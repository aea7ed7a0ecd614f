import Concord.CommandLine.Launch
import Concord.CommandLine.Options
import Concord.CommandLine.Reading
import Concord.CommandLine.Usage
import Concord.Data.Roll
import Concord.Data.Table
import Concord.Draws
import Concord.Faults
import Concord.Group.Basic
import Concord.Group.HostFile
import Concord.Group.HostList
import Concord.Liveness.Monitor
import Concord.Liveness.Watchlist
import Concord.Main
import Concord.Member
import Concord.Net.Address
import Concord.Net.Device
import Concord.Net.Fabric
import Concord.Node.Basic
import Concord.Order.Agreement
import Concord.Order.Ballot
import Concord.Order.HoldBack
import Concord.Order.SeenIds
import Concord.Proofs.Group.HostList
import Concord.Proofs.Group.Lookup
import Concord.Proofs.Liveness.Monitor
import Concord.Proofs.Liveness.Watchlist
import Concord.Proofs.Node.Alignment
import Concord.Proofs.Node.Authority
import Concord.Proofs.Node.Basic
import Concord.Proofs.Node.Drift
import Concord.Proofs.Node.Interleaving
import Concord.Proofs.Node.Outgoing
import Concord.Proofs.Node.OwnAddress
import Concord.Proofs.Order.Agreement
import Concord.Proofs.Order.Ballot
import Concord.Proofs.Order.Calls
import Concord.Proofs.Order.Coherence
import Concord.Proofs.Order.Confluence
import Concord.Proofs.Order.Conservation
import Concord.Proofs.Order.Deliveries
import Concord.Proofs.Order.Election
import Concord.Proofs.Order.Exhaustion
import Concord.Proofs.Order.HoldBack
import Concord.Proofs.Order.Lacking
import Concord.Proofs.Order.Numbering
import Concord.Proofs.Order.Release
import Concord.Proofs.Order.Removals
import Concord.Proofs.Order.Repetition
import Concord.Proofs.Order.SeenIds
import Concord.Proofs.Order.Sequence
import Concord.Proofs.Order.Settling
import Concord.Proofs.Order.Stamp
import Concord.Proofs.Order.Unforged
import Concord.Proofs.Order.Watermark
import Concord.Proofs.Record.Codec
import Concord.Proofs.Record.Language
import Concord.Proofs.Record.Typed
import Concord.Proofs.Rendezvous.Gathering
import Concord.Proofs.Rendezvous.Vigil
import Concord.Proofs.Retry.Courier
import Concord.Proofs.Retry.Deeds
import Concord.Proofs.Retry.Doubling
import Concord.Proofs.Retry.Outbox
import Concord.Proofs.Retry.Outstanding
import Concord.Proofs.Retry.Regularity
import Concord.Proofs.Retry.Rounds
import Concord.Proofs.Retry.Schedule
import Concord.Proofs.Retry.Settling
import Concord.Proofs.Retry.Timetable
import Concord.Proofs.Retry.Wakeup
import Concord.Proofs.Run.Draining
import Concord.Proofs.Run.Ports
import Concord.Proofs.Run.Rejection
import Concord.Proofs.Run.Sender
import Concord.Proofs.Run.Startup
import Concord.Proofs.Run.Strangers
import Concord.Proofs.Signal
import Concord.Proofs.World.Absorbed
import Concord.Proofs.World.Basic
import Concord.Proofs.World.Delivery
import Concord.Proofs.World.Lawful
import Concord.Proofs.World.Ledger
import Concord.Proofs.World.Moves
import Concord.Proofs.World.Orderly
import Concord.Proofs.World.RealTime
import Concord.Proofs.World.Redelivery
import Concord.Proofs.World.Roster
import Concord.Proofs.World.Run
import Concord.Proofs.World.Seat
import Concord.Proofs.World.Sending
import Concord.Proofs.World.TotalOrder
import Concord.Record.Basic
import Concord.Record.Codec
import Concord.Record.Word
import Concord.Rendezvous.Barrier
import Concord.Rendezvous.Probe
import Concord.Retry.Outbox
import Concord.Retry.Pump
import Concord.Retry.Schedule
import Concord.Run.Assembly
import Concord.Run.Clock
import Concord.Run.Cluster
import Concord.Run.Fleet
import Concord.Run.Intake
import Concord.Run.Listeners
import Concord.Run.LiveNode
import Concord.Run.Recorder
import Concord.Run.Sender
import Concord.Run.Stage
import Concord.Run.Ticker
import Concord.Settings
import Concord.Signal
import Concord.StartFault
import Concord.Text.Blank
import Concord.Text.Decimal
import Concord.Text.Digits
import Concord.Text.Integer
import Concord.Text.Quoted
import Concord.Text.Terminal
import Concord.Text.Visible
import Concord.Time.Millis
import Concord.Time.Span
import Concord.Time.Timer
