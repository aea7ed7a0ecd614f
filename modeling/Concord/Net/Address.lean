import Concord.Text.Digits

/-!
Addresses of datagram sockets: a host of one of the two internet protocols, and a port. The text
form of a host of the newer protocol is the recommended one: lower case, the first longest run of
at least two zero groups left out, an embedded older host in its own form.
-/

namespace Concord

/-- A host of the newer protocol is told apart by its flow label and its scope as well. No text form
shows a flow label. -/
inductive Host where
  | v4 (bits : UInt32)
  | v6 (bits : BitVec 128) (flow scope : UInt32)
deriving DecidableEq

structure Address where
  host : Host
  port : UInt16
deriving DecidableEq

namespace Host

open Text

def localhost : Host := .v4 0x7F000001

def octets (bits : Nat) : List Nat :=
  [bits / 0x1000000 % 256, bits / 0x10000 % 256, bits / 0x100 % 256, bits % 256]

def dotted (bits : Nat) : String := ".".intercalate ((octets bits).map toString)

/-- The eight groups of sixteen bits, the highest first. -/
def groups (bits : BitVec 128) : List Nat :=
  [7, 6, 5, 4, 3, 2, 1, 0].map fun i => bits.toNat / Nat.pow 0x10000 i % 0x10000

/-- The number of leading zero groups at every position. -/
def zeroRuns : List Nat → List Nat
  | [] => []
  | g :: rest =>
    let runs := zeroRuns rest
    (if g = 0 then runs.headD 0 + 1 else 0) :: runs

/-- Start and length of the first longest run of zero groups, if it has two groups or more. -/
def gap? (gs : List Nat) : Option (Nat × Nat) :=
  let runs := zeroRuns gs
  let longest := runs.foldl Nat.max 0
  if longest < 2 then none else some (runs.idxOf longest, longest)

def colons (gs : List Nat) : String := ":".intercalate (gs.map hexText)

def compressed (gs : List Nat) : String :=
  match gap? gs with
  | none => colons gs
  | some (start, length) => colons (gs.take start) ++ "::" ++ colons (gs.drop (start + length))

def v6Text (bits : BitVec 128) : String :=
  if bits.toNat / UInt32.size = 0xFFFF then "::ffff:" ++ dotted (bits.toNat % UInt32.size)
  else compressed (groups bits)

/-- One to three digits, at most 255, and no zero before another digit. -/
def readOctet? (cs : List Char) : Option Nat :=
  if cs.length > 3 ∨ (cs.length > 1 ∧ cs.head? = some '0') then none
  else (readDigits? 10 cs).filter (· < 256)

def readDotted? (cs : List Char) : Option Nat :=
  match (cutAt '.' cs).mapM readOctet? with
  | some [a, b, c, d] => some (((a * 256 + b) * 256 + c) * 256 + d)
  | _ => none

def readGroup? (cs : List Char) : Option Nat :=
  if cs.length > 4 then none else readDigits? 16 cs

/-- Groups between colons. Only the last may be an embedded host of the older protocol, which
counts as two. -/
def readGroups? (embedding : Bool) : List (List Char) → Option (List Nat)
  | [] => some []
  | [last] =>
    if embedding ∧ last.contains '.' then
      (readDotted? last).map fun n => [n / 0x10000, n % 0x10000]
    else (readGroup? last).map fun g => [g]
  | piece :: rest => do
    let g ← readGroup? piece
    let gs ← readGroups? embedding rest
    return g :: gs

def readSide? (embedding : Bool) (cs : List Char) : Option (List Nat) :=
  if cs.isEmpty then some [] else readGroups? embedding (cutAt ':' cs)

/-- The parts before and after the first double colon. -/
def splitGap : List Char → Option (List Char × List Char)
  | ':' :: ':' :: rest => some ([], rest)
  | c :: rest => (splitGap rest).map fun (before, after) => (c :: before, after)
  | [] => none

def ofGroups (gs : List Nat) : BitVec 128 :=
  BitVec.ofNat 128 (gs.foldl (fun n g => n * 0x10000 + g) 0)

def readV6? (cs : List Char) : Option (BitVec 128) :=
  match splitGap cs with
  | none => do
    let gs ← readSide? true cs
    if gs.length = 8 then some (ofGroups gs) else none
  | some (before, after) => do
    let front ← readSide? false before
    let back ← readSide? true after
    let filled := front.length + back.length
    if filled < 8 then some (ofGroups (front ++ List.replicate (8 - filled) 0 ++ back)) else none

/-- Reads a literal host, without brackets and without a scope. -/
def read? (s : String) : Option Host :=
  let cs := s.toList
  ((readDotted? cs).map fun n => .v4 n.toUInt32) <|> (readV6? cs).map fun bits => .v6 bits 0 0

end Host

namespace Address

open Text

def text (a : Address) : String :=
  match a.host with
  | .v4 bits => Host.dotted bits.toNat ++ ":" ++ toString a.port.toNat
  | .v6 bits _ scope =>
    let zone := if scope = 0 then "" else "%" ++ toString scope.toNat
    "[" ++ Host.v6Text bits ++ zone ++ "]:" ++ toString a.port.toNat

def withPort (a : Address) (port : UInt16) : Address := { a with port }

/-- The address on this machine with the given port. -/
def loopback (port : UInt16) : Address := ⟨.localhost, port⟩

def readPort? (cs : List Char) : Option UInt16 :=
  ((readDigits? 10 cs).filter (· < UInt16.size)).map Nat.toUInt16

def readScope? : List Char → Option UInt32
  | [] => some 0
  | '%' :: cs => ((readDigits? 10 cs).filter (· < UInt32.size)).map Nat.toUInt32
  | _ => none

def read? (s : String) : Option Address :=
  match s.toList with
  | '[' :: cs => do
    let inside := cs.takeWhile (· ≠ ']')
    let bits ← Host.readV6? (inside.takeWhile (· ≠ '%'))
    let scope ← readScope? (inside.dropWhile (· ≠ '%'))
    match cs.dropWhile (· ≠ ']') with
    | ']' :: ':' :: port => (readPort? port).map fun p => ⟨.v6 bits 0 scope, p⟩
    | _ => none
  | cs => do
    let bits ← Host.readDotted? (cs.takeWhile (· ≠ ':'))
    match cs.dropWhile (· ≠ ':') with
    | ':' :: port => (readPort? port).map fun p => ⟨.v4 bits.toUInt32, p⟩
    | _ => none

end Address

end Concord
