import Concord.Record.Codec

/-!
Reading a datagram gives back the record that was written, so different records have different
datagrams.
-/

namespace Concord

theorem Word.ofBytes_encode (w : UInt32) :
    Word.ofBytes (w.toNat / 0x1000000).toUInt8 (w.toNat / 0x10000).toUInt8
      (w.toNat / 0x100).toUInt8 w.toNat.toUInt8 = w := by
  have small := w.toNat_lt
  have whole : ((w.toNat / 0x1000000 % 256 * 256 + w.toNat / 0x10000 % 256) * 256
      + w.toNat / 0x100 % 256) * 256 + w.toNat % 256 = w.toNat := by omega
  have bytes (n : Nat) : n.toUInt8.toNat = n % 256 := UInt8.toNat_ofNat'
  rw [Word.ofBytes, bytes, bytes, bytes, bytes, whole]
  exact UInt32.ofNat_toNat

theorem Word.decode?_encode (ws : List UInt32) : Word.decode? (ws.flatMap Word.encode) = some ws := by
  induction ws with
  | nil => rfl
  | cons w rest ih =>
    rw [List.flatMap_cons, Word.encode, List.cons_append, List.cons_append, List.cons_append,
      List.cons_append, List.nil_append, Word.decode?, ih, Word.ofBytes_encode]
    rfl

theorem Word.head?_encode (w : UInt32) (rest : Bytes) : Word.head? (Word.encode w ++ rest) = some w :=
  congrArg some (Word.ofBytes_encode w)

namespace Record

theorem Kind.ofCode?_code (k : Kind) : Kind.ofCode? k.code = some k := by
  cases k <;> rfl

theorem fields_length (r : Record) : r.fields.length = r.kind.fieldCount := by
  cases r <;> rfl

theorem ofFields?_fields (r : Record) : ofFields? r.kind r.fields = some r := by
  cases r <;> rfl

theorem encode_length (r : Record) : r.encode.length = r.kind.size := by
  have words (ws : List UInt32) : (ws.flatMap Word.encode).length = 4 * ws.length := by
    induction ws with
    | nil => rfl
    | cons w rest ih =>
      rw [List.flatMap_cons, List.length_append, ih, List.length_cons]
      simp only [Word.encode, List.length_cons, List.length_nil]
      omega
  rw [encode, words, List.length_cons, fields_length, Kind.size]

theorem peek_encode (r : Record) : peek r.encode = .ok r.kind := by
  simp only [peek, encode, List.flatMap_cons, Word.head?_encode, Kind.ofCode?_code]

theorem decodeAs_encode (r : Record) : decodeAs r.kind r.encode = .ok r := by
  rw [decodeAs, if_neg (by rw [encode_length]; exact fun h => h rfl), encode, Word.decode?_encode]
  simp only [if_true, ofFields?_fields]

theorem decode_encode (r : Record) : decode r.encode = .ok r := by
  rw [decode, peek_encode]
  exact decodeAs_encode r

end Record

end Concord
