import Concord.Proofs.Record.Language

/-!
A datagram read as a record of one kind, and as a record of any kind. Both readers accept the same
records. The first looks at the length before the code and the second at the code before the length,
so of two reasons to refuse a datagram they name different ones.
-/

namespace Concord.Record

theorem Kind.code_injective {j k : Kind} (same : j.code = k.code) : j = k := by
  have known := Kind.ofCode?_code j
  rw [same, Kind.ofCode?_code] at known
  exact (Option.some.inj known).symm

theorem ne_code_of_unknown {code : UInt32} (unknown : Kind.ofCode? code = none) {k : Kind} :
    code ≠ k.code := by
  rintro rfl
  rw [Kind.ofCode?_code] at unknown
  cases unknown

/-- A datagram that has the size of a kind consists of a code and a word for each field. -/
theorem exists_words_of_fits {b : Bytes} {k : Kind} (fits : b.length = k.size) :
    ∃ (code : UInt32) (rest : List UInt32), Word.head? b = some code ∧
      b = Word.encode code ++ rest.flatMap Word.encode := by
  obtain ⟨words, length, rfl⟩ := Word.exists_words fits
  match words, length with
  | code :: rest, _ =>
    rw [List.flatMap_cons]
    exact ⟨code, rest, Word.head?_encode code _, rfl⟩

/-- What a datagram holds that must be of one kind, or why it is refused. -/
inductive ReadsAs (k : Kind) : Bytes → Except DecodeError Record → Prop where
  | misfit {b : Bytes} : b.length ≠ k.size →
    ReadsAs k b (.error (.malformed k k.size b.length))
  | other {b : Bytes} {j : Kind} : b.length = k.size → Word.head? b = some j.code → j ≠ k →
    ReadsAs k b (.error (.malformed k k.size b.length))
  | unknown {b : Bytes} {code : UInt32} : b.length = k.size → Word.head? b = some code →
    Kind.ofCode? code = none → ReadsAs k b (.error (.unknownKind code))
  | record (r : Record) : r.kind = k → ReadsAs k r.encode (.ok r)

variable {k : Kind} {b : Bytes} {verdict : Except DecodeError Record}

theorem exists_readsAs (k : Kind) (b : Bytes) : ∃ verdict, ReadsAs k b verdict := by
  by_cases fits : b.length = k.size
  · obtain ⟨code, -, lead, -⟩ := exists_words_of_fits fits
    cases known : Kind.ofCode? code with
    | none => exact ⟨_, .unknown fits lead known⟩
    | some j =>
      obtain rfl := Kind.ofCode?_eq_some_iff.mp known
      by_cases same : j = k
      · subst same
        obtain ⟨r, rfl⟩ := exists_encode_eq lead fits
        rw [head?_encode] at lead
        exact ⟨_, .record r (Kind.code_injective (Option.some.inj lead))⟩
      · exact ⟨_, .other fits lead same⟩
  · exact ⟨_, .misfit fits⟩

/-- With the right length, a code other than that of the kind decides on the reason. -/
theorem decodeAs_of_code_ne {code : UInt32} (fits : b.length = k.size)
    (lead : Word.head? b = some code) (unlike : code ≠ k.code) :
    decodeAs k b = if (Kind.ofCode? code).isSome then .error (.malformed k k.size b.length)
      else .error (.unknownKind code) := by
  obtain ⟨first, rest, lead', words⟩ := exists_words_of_fits fits
  obtain rfl : first = code := Option.some.inj (lead'.symm.trans lead)
  have whole : Word.decode? b = some (first :: rest) := by
    rw [words, ← List.flatMap_cons, Word.decode?_encode]
  rw [decodeAs, if_neg (not_not_intro fits), whole]
  exact if_neg unlike

theorem scanAs?_of_code_ne {code : UInt32} (fits : b.length = k.size)
    (lead : Word.head? b = some code) (unlike : code ≠ k.code) :
    scanAs? k b = some (decodeAs k b) := by
  obtain ⟨first, rest, lead', words⟩ := exists_words_of_fits fits
  obtain rfl : first = code := Option.some.inj (lead'.symm.trans lead)
  have next : Word.next? b = some (first, rest.flatMap Word.encode) := by
    rw [words, Word.next?_encode]
  have length : (rest.flatMap Word.encode).length + 4 = b.length := by
    rw [words, List.length_append]
    exact Nat.add_comm _ _
  rw [decodeAs_of_code_ne fits lead unlike, scanAs?, if_neg (not_not_intro fits), next]
  simp only [Option.bind_eq_bind, Option.bind_some, if_neg unlike, length]
  split <;> rfl

theorem ReadsAs.decodeAs_eq (h : ReadsAs k b verdict) : decodeAs k b = verdict := by
  cases h with
  | misfit misfit => exact if_pos misfit
  | other fits lead unlike =>
    rw [decodeAs_of_code_ne fits lead (mt Kind.code_injective unlike), Kind.ofCode?_code]
    rfl
  | unknown fits lead unknown =>
    rw [decodeAs_of_code_ne fits lead (ne_code_of_unknown unknown), unknown]
    rfl
  | record r kind =>
    subst kind
    exact decodeAs_encode r

theorem decodeAs_eq_iff : decodeAs k b = verdict ↔ ReadsAs k b verdict := by
  refine ⟨?_, ReadsAs.decodeAs_eq⟩
  rintro rfl
  obtain ⟨verdict, h⟩ := exists_readsAs k b
  rw [h.decodeAs_eq]
  exact h

/-- The reader of one kind never runs over the end, either. -/
theorem scanAs?_eq (k : Kind) (b : Bytes) : scanAs? k b = some (decodeAs k b) := by
  obtain ⟨verdict, h⟩ := exists_readsAs k b
  cases h with
  | misfit misfit => rw [scanAs?, decodeAs, if_pos misfit, if_pos misfit]
  | other fits lead unlike => exact scanAs?_of_code_ne fits lead (mt Kind.code_injective unlike)
  | unknown fits lead unknown =>
    exact scanAs?_of_code_ne fits lead (ne_code_of_unknown unknown)
  | record r kind =>
    subst kind
    rw [scanAs?_encode, decodeAs_encode]

theorem decodeAs_eq_ok_iff {r : Record} :
    decodeAs k b = .ok r ↔ decode b = .ok r ∧ r.kind = k := by
  rw [decodeAs_eq_iff, decode_eq_iff]
  constructor
  · rintro ⟨⟩
    exact ⟨.record r, ‹_›⟩
  · rintro ⟨⟨⟩, kind⟩
    exact .record r kind

theorem decodeAs_eq_malformed_iff {j : Kind} {expected actual : Nat} :
    decodeAs k b = .error (.malformed j expected actual) ↔
      (j = k ∧ expected = k.size ∧ actual = b.length) ∧ (b.length ≠ k.size ∨
        b.length = k.size ∧ ∃ other : Kind, other ≠ k ∧ Word.Leads other.code.toNat b) := by
  simp only [decodeAs_eq_iff, ← Word.head?_eq_some_iff]
  constructor
  · rintro (misfit | ⟨fits, lead, unlike⟩)
    · exact ⟨⟨rfl, rfl, rfl⟩, .inl misfit⟩
    · exact ⟨⟨rfl, rfl, rfl⟩, .inr ⟨fits, _, unlike, lead⟩⟩
  · rintro ⟨⟨rfl, rfl, rfl⟩, misfit | ⟨fits, other, unlike, lead⟩⟩
    · exact .misfit misfit
    · exact .other fits lead unlike

theorem decodeAs_eq_unknownKind_iff {code : UInt32} :
    decodeAs k b = .error (.unknownKind code) ↔
      b.length = k.size ∧ Word.Leads code.toNat b ∧ ∀ j : Kind, code ≠ j.code := by
  have unknown_iff : Kind.ofCode? code = none ↔ ∀ j : Kind, code ≠ j.code := by
    simp only [Option.eq_none_iff_forall_ne_some, ne_eq, Kind.ofCode?_eq_some_iff]
  rw [decodeAs_eq_iff, ← Word.head?_eq_some_iff, ← unknown_iff]
  constructor
  · rintro ⟨⟩
    exact ⟨‹_›, ‹_›, ‹_›⟩
  · rintro ⟨fits, lead, unknown⟩
    exact .unknown fits lead unknown

/-- The reader of any kind finds fault with a length only where it is wrong. -/
theorem decode_ne_malformed {j : Kind} {n : Nat} : decode b ≠ .error (.malformed j n n) := by
  intro malformed
  generalize same : (.error (.malformed j n n) : Except DecodeError Record) = verdict at malformed
  cases decode_eq_iff.mp malformed with
  | misfit _ misfit =>
    injection same with same
    injection same with _ fits length
    exact misfit (length.symm.trans fits)
  | short | unknown | record => cases same

/-- The reader of one kind accepts what the reader of any kind accepts and finds to be of that kind.
Else it refuses a datagram for its length, or with the right length for the code of another kind,
and only then for a code of no kind. So no datagram is accepted as of two kinds, and the reader of
any kind never finds a datagram malformed that has the right length. -/
theorem typed_reading_agrees (k : Kind) (b : Bytes) :
    (∀ r : Record, decodeAs k b = .ok r ↔ decode b = .ok r ∧ r.kind = k) ∧
    (∀ j expected actual, decodeAs k b = .error (.malformed j expected actual) ↔
      (j = k ∧ expected = k.size ∧ actual = b.length) ∧ (b.length ≠ k.size ∨
        b.length = k.size ∧ ∃ other : Kind, other ≠ k ∧ Word.Leads other.code.toNat b)) ∧
    (∀ code, decodeAs k b = .error (.unknownKind code) ↔
      b.length = k.size ∧ Word.Leads code.toNat b ∧ ∀ j : Kind, code ≠ j.code) ∧
    (∀ n, decodeAs k b ≠ .error (.tooShort n)) ∧
    scanAs? k b = some (decodeAs k b) ∧
    (∀ j, j = k ∨ ¬ ((∃ r, decodeAs k b = .ok r) ∧ ∃ r, decodeAs j b = .ok r)) ∧
    (∀ j n, decode b ≠ .error (.malformed j n n)) := by
  refine ⟨fun _ => decodeAs_eq_ok_iff, fun _ _ _ => decodeAs_eq_malformed_iff,
    fun _ => decodeAs_eq_unknownKind_iff, fun n short => ?_, scanAs?_eq k b, fun j => ?_,
    fun _ _ => decode_ne_malformed⟩
  · rw [decodeAs_eq_iff] at short
    cases short
  · refine (Decidable.em (j = k)).imp_right ?_
    rintro unlike ⟨⟨r, here⟩, s, there⟩
    obtain ⟨read, rfl⟩ := decodeAs_eq_ok_iff.mp here
    obtain ⟨again, rfl⟩ := decodeAs_eq_ok_iff.mp there
    cases read.symm.trans again
    exact unlike rfl

end Concord.Record
