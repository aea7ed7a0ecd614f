import Concord.Proofs.Record.Codec

/-!
The datagrams that hold a record are those that writing one produces, and every other datagram is
refused for one reason: it is too short for a code, its code stands for no kind, or its length is
not that of its kind. A reader that takes one word after the other comes to the same result and
never asks for a word that is not there.
-/

namespace Concord

namespace Word

/-- The first four bytes are the digits of a number to the base 256. -/
def Leads (n : Nat) (b : Bytes) : Prop :=
  ∃ w x y z rest, b = w :: x :: y :: z :: rest ∧
    n = ((w.toNat * 256 + x.toNat) * 256 + y.toNat) * 256 + z.toNat

theorem toNat_ofBytes (w x y z : UInt8) : (ofBytes w x y z).toNat =
    ((w.toNat * 256 + x.toNat) * 256 + y.toNat) * 256 + z.toNat := by
  have value (n : Nat) : n.toUInt32.toNat = n % 2 ^ 32 := UInt32.toNat_ofNat'
  have hw := w.toNat_lt
  have hx := x.toNat_lt
  have hy := y.toNat_lt
  have hz := z.toNat_lt
  rw [ofBytes, value]
  omega

theorem encode_ofBytes (w x y z : UInt8) : encode (ofBytes w x y z) = [w, x, y, z] := by
  have hw := w.toNat_lt
  have hx := x.toNat_lt
  have hy := y.toNat_lt
  have hz := z.toNat_lt
  have digit {n : Nat} {u : UInt8} (same : n % 256 = u.toNat) : n.toUInt8 = u := by
    apply UInt8.toNat.inj
    rw [← same]
    exact UInt8.toNat_ofNat'
  rw [encode, toNat_ofBytes, digit (u := w), digit (u := x), digit (u := y), digit (u := z)]
  all_goals omega

theorem head?_eq_some_iff {b : Bytes} {code : UInt32} :
    head? b = some code ↔ Leads code.toNat b := by
  constructor
  · intro h
    match b, h with
    | w :: x :: y :: z :: rest, h =>
      cases h
      exact ⟨w, x, y, z, rest, rfl, toNat_ofBytes w x y z⟩
  · rintro ⟨w, x, y, z, rest, rfl, digits⟩
    rw [← toNat_ofBytes] at digits
    rw [head?, UInt32.toNat.inj digits]

theorem head?_eq_none_iff {b : Bytes} : head? b = none ↔ b.length < 4 := by
  match b with
  | [] | [_] | [_, _] | [_, _, _] => simp [head?]
  | _ :: _ :: _ :: _ :: rest => simp [head?]

/-- Every byte string of the right length consists of words. -/
theorem exists_words {n : Nat} {b : Bytes} (whole : b.length = 4 * n) :
    ∃ words : List UInt32, words.length = n ∧ words.flatMap encode = b := by
  induction n generalizing b with
  | zero =>
    obtain rfl := List.length_eq_zero_iff.mp whole
    exact ⟨[], rfl, rfl⟩
  | succ n ih =>
    match b, whole with
    | w :: x :: y :: z :: rest, whole =>
      simp only [List.length_cons] at whole
      obtain ⟨words, length, rfl⟩ := ih (b := rest) (by omega)
      refine ⟨ofBytes w x y z :: words, by rw [List.length_cons, length], ?_⟩
      rw [List.flatMap_cons, encode_ofBytes]
      rfl

/-- Takes the first word off. There is none if fewer than four bytes are left. -/
def next? : Bytes → Option (UInt32 × Bytes)
  | w :: x :: y :: z :: rest => some (ofBytes w x y z, rest)
  | _ => none

/-- Takes the first words off, one after the other. -/
def take? : Nat → Bytes → Option (List UInt32 × Bytes)
  | 0, b => some ([], b)
  | n + 1, b => do
    let (word, rest) ← next? b
    let (words, rest) ← take? n rest
    return (word :: words, rest)

theorem next?_encode (w : UInt32) (rest : Bytes) : next? (encode w ++ rest) = some (w, rest) :=
  congrArg (fun code => some (code, rest)) (ofBytes_encode w)

theorem next?_of_head? {b : Bytes} {code : UInt32} (h : head? b = some code) :
    ∃ rest, next? b = some (code, rest) := by
  match b, h with
  | _ :: _ :: _ :: _ :: rest, h =>
    cases h
    exact ⟨rest, rfl⟩

theorem take?_encode (words : List UInt32) :
    take? words.length (words.flatMap encode) = some (words, []) := by
  induction words with
  | nil => rfl
  | cons w rest ih => simp [take?, next?_encode, ih]

end Word

namespace Record

theorem Kind.ofCode?_eq_some_iff {code : UInt32} {k : Kind} :
    Kind.ofCode? code = some k ↔ code = k.code := by
  constructor
  · intro h
    have found : k.code = code := by simpa using List.find?_some h
    exact found.symm
  · rintro rfl
    exact ofCode?_code k

/-- The codes of the kinds are the numbers from one to five. -/
theorem Kind.ofCode?_eq_none_iff {code : UInt32} :
    Kind.ofCode? code = none ↔ code.toNat < 1 ∨ 5 < code.toNat := by
  have kinds : Kind.ofCode? code = none ↔ ∀ k : Kind, code.toNat ≠ k.code.toNat := by
    rw [Option.eq_none_iff_forall_ne_some]
    refine forall_congr' fun k => not_congr ?_
    rw [ofCode?_eq_some_iff, UInt32.toNat_inj]
  rw [kinds]
  constructor
  · intro none
    have message : code.toNat ≠ 1 := none .message
    have proposal : code.toNat ≠ 2 := none .proposal
    have decision : code.toNat ≠ 3 := none .decision
    have receipt : code.toNat ≠ 4 := none .receipt
    have marker : code.toNat ≠ 5 := none .marker
    omega
  · intro outside k
    have inside : 1 ≤ k.code.toNat ∧ k.code.toNat ≤ 5 := by cases k <;> decide
    omega

/-- As many words as a kind has fields make up a record of the kind. -/
theorem exists_ofFields? {k : Kind} {words : List UInt32} (length : words.length = k.fieldCount) :
    ∃ r : Record, r.kind = k ∧ r.fields = words := by
  cases k with
  | message =>
    match words, length with
    | [s, n, payload], _ => exact ⟨.message ⟨⟨⟨s⟩, n⟩, payload⟩, rfl, rfl⟩
  | proposal =>
    match words, length with
    | [s, n, q, p], _ => exact ⟨.proposal ⟨⟨⟨s⟩, n⟩, ⟨q, ⟨p⟩⟩⟩, rfl, rfl⟩
  | decision =>
    match words, length with
    | [s, n, q, p], _ => exact ⟨.decision ⟨⟨⟨s⟩, n⟩, ⟨q, ⟨p⟩⟩⟩, rfl, rfl⟩
  | receipt =>
    match words, length with
    | [s, n, a], _ => exact ⟨.receipt ⟨⟨⟨s⟩, n⟩, ⟨a⟩⟩, rfl, rfl⟩
  | marker =>
    match words, length with
    | [s], _ => exact ⟨.marker ⟨s⟩, rfl, rfl⟩

theorem head?_encode (r : Record) : Word.head? r.encode = some r.kind.code :=
  Word.head?_encode r.kind.code _

/-- What leads a datagram with the code and the size of a kind is a record of the kind. -/
theorem exists_encode_eq {b : Bytes} {k : Kind} (lead : Word.head? b = some k.code)
    (fits : b.length = k.size) : ∃ r : Record, r.encode = b := by
  obtain ⟨words, length, rfl⟩ := Word.exists_words fits
  match words, length with
  | code :: rest, length =>
    rw [List.flatMap_cons, Word.head?_encode] at lead
    obtain ⟨r, kind, fields⟩ := exists_ofFields? (Nat.succ.inj length)
    refine ⟨r, ?_⟩
    rw [encode, kind, fields, Option.some.inj lead]

/-- What a datagram holds, or why it is refused. -/
inductive Reads : Bytes → Except DecodeError Record → Prop where
  | short {b : Bytes} : b.length < 4 → Reads b (.error (.tooShort b.length))
  | unknown {b : Bytes} {code : UInt32} : Word.head? b = some code → Kind.ofCode? code = none →
    Reads b (.error (.unknownKind code))
  | misfit {b : Bytes} {k : Kind} : Word.head? b = some k.code → b.length ≠ k.size →
    Reads b (.error (.malformed k k.size b.length))
  | record (r : Record) : Reads r.encode (.ok r)

theorem exists_reads (b : Bytes) : ∃ verdict, Reads b verdict := by
  cases lead : Word.head? b with
  | none => exact ⟨_, .short (Word.head?_eq_none_iff.mp lead)⟩
  | some code =>
    cases known : Kind.ofCode? code with
    | none => exact ⟨_, .unknown lead known⟩
    | some k =>
      obtain rfl := Kind.ofCode?_eq_some_iff.mp known
      by_cases fits : b.length = k.size
      · obtain ⟨r, rfl⟩ := exists_encode_eq lead fits
        exact ⟨_, .record r⟩
      · exact ⟨_, .misfit lead fits⟩

theorem decode_eq_iff {b : Bytes} {verdict : Except DecodeError Record} :
    decode b = verdict ↔ Reads b verdict := by
  have sound {verdict : Except DecodeError Record} (h : Reads b verdict) : decode b = verdict := by
    cases h with
    | short short => simp only [decode, peek, Word.head?_eq_none_iff.mpr short]
    | unknown lead unknown => simp only [decode, peek, lead, unknown]
    | misfit lead misfit =>
      simp only [decode, peek, lead, Kind.ofCode?_code]
      exact if_pos misfit
    | record r => exact decode_encode r
  refine ⟨?_, sound⟩
  rintro rfl
  obtain ⟨verdict, h⟩ := exists_reads b
  rw [sound h]
  exact h

/-- Reads a datagram of the given kind word by word. -/
def scanAs? (k : Kind) (b : Bytes) : Option (Except DecodeError Record) :=
  if b.length ≠ k.size then some (.error (.malformed k k.size b.length))
  else do
    let (code, rest) ← Word.next? b
    if code = k.code then
      let (words, _) ← Word.take? k.fieldCount rest
      let r ← ofFields? k words
      return .ok r
    else if (Kind.ofCode? code).isSome then return .error (.malformed k k.size (rest.length + 4))
    else return .error (.unknownKind code)

/-- Reads a datagram word by word. There is no result if a word is asked for that is not there. -/
def scan? (b : Bytes) : Option (Except DecodeError Record) :=
  if b.length < 4 then some (.error (.tooShort b.length))
  else do
    let (code, _) ← Word.next? b
    match Kind.ofCode? code with
    | some k => scanAs? k b
    | none => return .error (.unknownKind code)

theorem scanAs?_encode (r : Record) : scanAs? r.kind r.encode = some (.ok r) := by
  have first : Word.next? r.encode = some (r.kind.code, r.fields.flatMap Word.encode) :=
    Word.next?_encode r.kind.code _
  rw [scanAs?, if_neg (not_not_intro r.encode_length), first, ← fields_length]
  simp [Word.take?_encode, ofFields?_fields]

theorem Reads.scan?_eq {b : Bytes} {verdict : Except DecodeError Record} (h : Reads b verdict) :
    scan? b = some verdict := by
  have long {b : Bytes} {code : UInt32} (lead : Word.head? b = some code) : ¬ b.length < 4 := by
    rw [← Word.head?_eq_none_iff, lead]
    exact Option.some_ne_none code
  cases h with
  | short short => exact if_pos short
  | unknown lead unknown =>
    obtain ⟨rest, first⟩ := Word.next?_of_head? lead
    rw [scan?, if_neg (long lead), first]
    simp [unknown]
  | misfit lead misfit =>
    obtain ⟨rest, first⟩ := Word.next?_of_head? lead
    rw [scan?, if_neg (long lead), first]
    simp [Kind.ofCode?_code, scanAs?, misfit]
  | record r =>
    obtain ⟨rest, first⟩ := Word.next?_of_head? r.head?_encode
    rw [scan?, if_neg (long r.head?_encode), first]
    simp [Kind.ofCode?_code, scanAs?_encode]

/-- Reading and writing are inverse to each other, and the reason why a datagram holds no record is
that it is too short for a code, that its code stands for no kind, or else that it does not have the
size of its kind. The reader never runs over the end. -/
theorem decode_exact (b : Bytes) :
    (∀ r : Record, decode b = .ok r ↔ r.encode = b) ∧
    (∀ n, decode b = .error (.tooShort n) ↔ b.length < 4 ∧ n = b.length) ∧
    (∀ code, decode b = .error (.unknownKind code) ↔
      Word.Leads code.toNat b ∧ (code.toNat < 1 ∨ 5 < code.toNat)) ∧
    (∀ k expected actual, decode b = .error (.malformed k expected actual) ↔
      Word.Leads k.code.toNat b ∧ b.length ≠ k.size ∧ expected = k.size ∧ actual = b.length) ∧
    scan? b = some (decode b) := by
  refine ⟨fun r => ?_, fun n => ?_, fun code => ?_, fun k expected actual => ?_, ?_⟩
  · rw [decode_eq_iff]
    constructor
    · rintro ⟨⟩
      rfl
    · rintro rfl
      exact .record r
  · rw [decode_eq_iff]
    constructor
    · rintro ⟨⟩
      exact ⟨‹_›, rfl⟩
    · rintro ⟨short, rfl⟩
      exact .short short
  · rw [decode_eq_iff, ← Word.head?_eq_some_iff, ← Kind.ofCode?_eq_none_iff]
    constructor
    · rintro ⟨⟩
      exact ⟨‹_›, ‹_›⟩
    · rintro ⟨lead, unknown⟩
      exact .unknown lead unknown
  · rw [decode_eq_iff, ← Word.head?_eq_some_iff]
    constructor
    · rintro ⟨⟩
      exact ⟨‹_›, ‹_›, rfl, rfl⟩
    · rintro ⟨lead, misfit, rfl, rfl⟩
      exact .misfit lead misfit
  · exact (decode_eq_iff.mp rfl).scan?_eq

end Record

end Concord
