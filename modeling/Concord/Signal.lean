import Concord.Member
import Concord.Record.Word

/-!
Signals between members outside the multicast protocol: probes and their answers before the start,
and heartbeats during the run. They have ports of their own.
-/

namespace Concord

inductive Signal where
  | alive (member : MemberId)
  | aliveAnswer (member : MemberId)
  | heartbeat (member : MemberId)
deriving DecidableEq

inductive SignalError where
  | wrongSize (length : Nat)
  | unknownCode (code : UInt32)
deriving DecidableEq

namespace Signal

/-- The size of every signal, in bytes. -/
def size : Nat := 8

def name : Signal → String
  | .alive _ => "Alive"
  | .aliveAnswer _ => "AliveAck"
  | .heartbeat _ => "Heartbeat"

def code : Signal → UInt32
  | .alive _ => 1
  | .aliveAnswer _ => 2
  | .heartbeat _ => 6

def member : Signal → MemberId
  | .alive m => m
  | .aliveAnswer m => m
  | .heartbeat m => m

def encode (s : Signal) : Bytes := Word.encode s.code ++ Word.encode s.member.rank

def ofWords (code rank : UInt32) : Except SignalError Signal :=
  if code = 1 then .ok (.alive ⟨rank⟩)
  else if code = 2 then .ok (.aliveAnswer ⟨rank⟩)
  else if code = 6 then .ok (.heartbeat ⟨rank⟩)
  else .error (.unknownCode code)

def decode (b : Bytes) : Except SignalError Signal :=
  match Word.decode? b with
  | some [code, rank] => ofWords code rank
  | _ => .error (.wrongSize b.length)

end Signal

def SignalError.message : SignalError → String
  | .wrongSize length =>
    "control message must be " ++ toString Signal.size ++ " bytes, was " ++ toString length
  | .unknownCode code => "invalid control message discriminator " ++ toString code.toNat

end Concord
