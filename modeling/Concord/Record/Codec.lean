import Concord.Record.Basic
import Concord.Record.Word

/-!
Records as datagrams: the code of the kind, then the fields, each one word. Every kind has one
size, so a datagram of another length is malformed. `Record.decode` looks at the kind first,
`Record.decodeAs` at the length of the kind it expects.
-/

namespace Concord

inductive DecodeError where
  | malformed (kind : Record.Kind) (expected actual : Nat)
  | unknownKind (code : UInt32)
  | tooShort (length : Nat)
deriving DecidableEq

def DecodeError.message : DecodeError → String
  | .malformed kind expected actual =>
    "malformed " ++ kind.name ++ " message: expected " ++ toString expected ++ " bytes, got "
      ++ toString actual
  | .unknownKind code => "unknown record kind " ++ toString code.toNat
  | .tooShort length =>
    "datagram of " ++ toString length ++ " bytes is too short to contain a record kind"

namespace Record

/-- The number of fields behind the kind. -/
def Kind.fieldCount : Kind → Nat
  | .message => 3
  | .proposal => 4
  | .decision => 4
  | .receipt => 3
  | .marker => 1

/-- The size of a datagram of the kind, in bytes. -/
def Kind.size (k : Kind) : Nat := 4 * (k.fieldCount + 1)

def fields : Record → List UInt32
  | .message m => [m.id.sender.rank, m.id.number, m.payload]
  | .proposal p => [p.id.sender.rank, p.id.number, p.stamp.number, p.stamp.proposer.rank]
  | .decision d => [d.id.sender.rank, d.id.number, d.stamp.number, d.stamp.proposer.rank]
  | .receipt r => [r.id.sender.rank, r.id.number, r.signer.rank]
  | .marker sender => [sender.rank]

def ofFields? : Kind → List UInt32 → Option Record
  | .message, [s, n, payload] => some (.message ⟨⟨⟨s⟩, n⟩, payload⟩)
  | .proposal, [s, n, q, p] => some (.proposal ⟨⟨⟨s⟩, n⟩, ⟨q, ⟨p⟩⟩⟩)
  | .decision, [s, n, q, p] => some (.decision ⟨⟨⟨s⟩, n⟩, ⟨q, ⟨p⟩⟩⟩)
  | .receipt, [s, n, a] => some (.receipt ⟨⟨⟨s⟩, n⟩, ⟨a⟩⟩)
  | .marker, [s] => some (.marker ⟨s⟩)
  | _, _ => none

def encode (r : Record) : Bytes := (r.kind.code :: r.fields).flatMap Word.encode

/-- The kind of a datagram, whatever follows it. -/
def peek (b : Bytes) : Except DecodeError Kind :=
  match Word.head? b with
  | none => .error (.tooShort b.length)
  | some code =>
    match Kind.ofCode? code with
    | some kind => .ok kind
    | none => .error (.unknownKind code)

/-- Reads a datagram that must hold a record of the given kind. -/
def decodeAs (k : Kind) (b : Bytes) : Except DecodeError Record :=
  if b.length ≠ k.size then .error (.malformed k k.size b.length)
  else
    match Word.decode? b with
    | some (code :: rest) =>
      if code = k.code then
        match ofFields? k rest with
        | some r => .ok r
        | none => .error (.malformed k k.size b.length)
      else if (Kind.ofCode? code).isSome then .error (.malformed k k.size b.length)
      else .error (.unknownKind code)
    | _ => .error (.malformed k k.size b.length)

def decode (b : Bytes) : Except DecodeError Record :=
  match peek b with
  | .ok kind => decodeAs kind b
  | .error e => .error e

end Record

def Message.encode (m : Message) : Bytes := (Record.message m).encode

def Decision.encode (d : Decision) : Bytes := (Record.decision d).encode

end Concord
