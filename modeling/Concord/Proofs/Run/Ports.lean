import Concord.Liveness.Monitor
import Concord.Proofs.Run.Draining
import Concord.Proofs.Signal
import Concord.Rendezvous.Barrier

/-!
Signals and records share codes, and a marker has the size of a signal. No datagram holds both all
the same: whichever the code, the size tells them apart, and the code of a marker is no signal's. So
a datagram at a port of the other kind is refused there, and what listens at the port stays as it
was.
-/

namespace Concord

/-- Why a record is refused where signals are expected. -/
def Record.asSignal : Record → SignalError
  | .marker _ => .unknownCode 5
  | r => .wrongSize r.kind.size

/-- Why a signal is refused where records are expected. -/
def Signal.asRecord : Signal → DecodeError
  | .alive _ => .malformed .message 16 8
  | .aliveAnswer _ => .malformed .proposal 20 8
  | .heartbeat _ => .unknownKind 6

/-- Only a marker has the size of a signal. -/
theorem Record.Kind.size_eq_iff {k : Kind} : k.size = Signal.size ↔ k = .marker := by
  cases k <;> decide

theorem Signal.decode_record (r : Record) : Signal.decode r.encode = .error r.asSignal := by
  have unlike (other : r.kind ≠ .marker) :
      Signal.decode r.encode = .error (.wrongSize r.kind.size) := by
    have misfit : r.encode.length ≠ Signal.size := by
      rwa [r.encode_length, Ne, Record.Kind.size_eq_iff]
    rw [Signal.decode_eq_iff.mpr (.misfit misfit), r.encode_length]
  cases r with
  | message | proposal | decision | receipt => exact unlike nofun
  | marker sender =>
    have other : ∀ s : Signal, s.code ≠ 5 := Signal.code_ne_iff.mpr (by decide)
    exact Signal.decode_eq_iff.mpr (.unknown rfl (Record.head?_encode (.marker sender)) other)

theorem Record.decode_signal (s : Signal) : Record.decode s.encode = .error s.asRecord := by
  have lead := s.head?_encode
  have misfit {k : Kind} (other : k ≠ .marker) : s.encode.length ≠ k.size := by
    rwa [s.encode_length, ne_comm, Ne, Kind.size_eq_iff]
  apply Record.decode_eq_iff.mpr
  cases s with
  | alive => exact .misfit (k := .message) lead (misfit nofun)
  | aliveAnswer => exact .misfit (k := .proposal) lead (misfit nofun)
  | heartbeat => exact .unknown lead (by decide)

theorem Barrier.arrive_record (now : Instant) (b : Barrier) (source : Address) (r : Record) :
    b.arrive now (.datagram source r.encode) = b := by
  unfold arrive
  split
  · simp only [Signal.decode_record]
  · rfl

theorem Monitor.arrive_record (m : Monitor) (source : Address) (r : Record) :
    m.arrive (.datagram source r.encode) = m := by
  unfold arrive
  split
  · simp only [hear, Signal.decode_record]
  · rfl

theorem Intake.pending_arrive_signal (i : Intake) (source : Address) (s : Signal) :
    (i.arrive (.datagram source s.encode)).pending = i.pending := by
  simp [pending_arrive, Arrival.record?, Record.decode_signal]

/-- Reading and writing signals are inverse to each other, and a datagram that holds no signal is
refused for its size or else for its code. No datagram is a signal and a record. A record at the
port for probes or for heartbeats changes nothing there, and a signal at the port for records is
none of those that are handled. -/
theorem Signal.apart_from_records (b : Bytes) :
    (∀ s : Signal, decode b = .ok s ↔ s.encode = b) ∧
    (∀ n, decode b = .error (.wrongSize n) ↔ b.length ≠ 8 ∧ n = b.length) ∧
    (∀ code, decode b = .error (.unknownCode code) ↔ b.length = 8 ∧ Word.Leads code.toNat b ∧
      code.toNat ≠ 1 ∧ code.toNat ≠ 2 ∧ code.toNat ≠ 6) ∧
    ¬ ((∃ s, decode b = .ok s) ∧ ∃ r, Record.decode b = .ok r) ∧
    (∀ r : Record, decode r.encode = .error r.asSignal) ∧
    (∀ s : Signal, Record.decode s.encode = .error s.asRecord) ∧
    (∀ (r : Record) (source : Address) (now : Instant) (barrier : Barrier) (monitor : Monitor),
      barrier.arrive now (.datagram source r.encode) = barrier ∧
        monitor.arrive (.datagram source r.encode) = monitor) ∧
    ∀ (s : Signal) (source : Address) (i : Intake),
      (i.arrive (.datagram source s.encode)).pending = i.pending := by
  refine ⟨fun s => ?_, fun n => ?_, fun code => ?_, ?_, decode_record, Record.decode_signal,
    fun r source now barrier monitor => ⟨barrier.arrive_record now source r,
      monitor.arrive_record source r⟩,
    fun s source i => i.pending_arrive_signal source s⟩
  · rw [decode_eq_iff]
    constructor
    · rintro ⟨⟩
      rfl
    · rintro rfl
      exact .signal s
  · rw [decode_eq_iff]
    constructor
    · rintro ⟨⟩
      exact ⟨‹_›, rfl⟩
    · rintro ⟨misfit, rfl⟩
      exact .misfit misfit
  · rw [decode_eq_iff, ← Word.head?_eq_some_iff, ← code_ne_iff]
    constructor
    · rintro ⟨⟩
      exact ⟨‹_›, ‹_›, ‹_›⟩
    · rintro ⟨fits, lead, other⟩
      exact .unknown fits lead other
  · rintro ⟨⟨s, signal⟩, r, record⟩
    cases decode_eq_iff.mp signal with
    | signal => cases record.symm.trans (Record.decode_signal s)

end Concord
