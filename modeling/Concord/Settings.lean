import Concord.Retry.Schedule
import Concord.Text.Decimal

/-!
Settings of a member, their defaults, and the check they pass before a member starts.
-/

namespace Concord

structure Settings where
  multicastPort : UInt16
  probePort : UInt16
  heartbeatPort : UInt16
  /-- The first pause between two rounds of retransmission. -/
  basePause : Span
  /-- Pauses double up to this ceiling and then start over. -/
  longestPause : Span
  /-- The probability that an incoming record is discarded. -/
  dropRate : Float
  /-- How long a reply is held back if it is delayed. -/
  replyDelay : Span
  /-- The probability that a reply is delayed. -/
  delayProbability : Float
  probeInterval : Span
  heartbeatInterval : Span
  /-- How many intervals without a heartbeat a member survives. -/
  toleratedMisses : UInt32
  /-- How many decoded records wait to be handled. -/
  recordRoom : Nat

inductive SettingsError where
  | dropRate (given : Float)
  | delayProbability (given : Float)
  | zeroBase
  | ceilingBelowBase (ceiling base : Span)
  | noRecordRoom

def SettingsError.message : SettingsError → String
  | .dropRate given => "drop rate must be between 0 and 1, was " ++ Text.numberText given
  | .delayProbability given =>
    "delay probability must be between 0 and 1, was " ++ Text.numberText given
  | .zeroBase => "retransmission base interval must be positive"
  | .ceilingBelowBase ceiling base =>
    "retransmission ceiling " ++ ceiling.text ++ " is below the base interval " ++ base.text
  | .noRecordRoom => "record channel capacity must be positive"

namespace Settings

def withFaults (dropRate : Float) (replyDelay : Span) : Settings where
  multicastPort := 10001
  probePort := 10000
  heartbeatPort := 10002
  basePause := .ofMillis 200
  longestPause := .ofSeconds 4
  dropRate := dropRate
  replyDelay := replyDelay
  delayProbability := 0.5
  probeInterval := .ofSeconds 1
  heartbeatInterval := .ofSeconds 1
  toleratedMisses := 2
  recordRoom := 1024

def standard : Settings := withFaults 0 .zero

instance : Inhabited Settings := ⟨standard⟩

/-- Not a number is no probability. -/
def isProbability (p : Float) : Bool := decide (0 ≤ p) && decide (p ≤ 1)

def check (s : Settings) : Except SettingsError Unit :=
  if !isProbability s.dropRate then .error (.dropRate s.dropRate)
  else if !isProbability s.delayProbability then .error (.delayProbability s.delayProbability)
  else if s.basePause.isZero then .error .zeroBase
  else if s.longestPause.nanos < s.basePause.nanos then
    .error (.ceilingBelowBase s.longestPause s.basePause)
  else if s.recordRoom = 0 then .error .noRecordRoom
  else .ok ()

end Settings

end Concord
