/-!
Words of 32 bits as four bytes, the highest first.
-/

namespace Concord

abbrev Bytes := List UInt8

namespace Word

def encode (w : UInt32) : Bytes :=
  [(w.toNat / 0x1000000).toUInt8, (w.toNat / 0x10000).toUInt8, (w.toNat / 0x100).toUInt8,
    w.toNat.toUInt8]

def ofBytes (a b c d : UInt8) : UInt32 :=
  (((a.toNat * 256 + b.toNat) * 256 + c.toNat) * 256 + d.toNat).toUInt32

/-- The words of a byte string whose length is a multiple of four. -/
def decode? : Bytes → Option (List UInt32)
  | [] => some []
  | a :: b :: c :: d :: rest => (decode? rest).map (ofBytes a b c d :: ·)
  | _ => none

/-- The first word of a byte string, whatever follows it. -/
def head? : Bytes → Option UInt32
  | a :: b :: c :: d :: _ => some (ofBytes a b c d)
  | _ => none

end Word

end Concord
