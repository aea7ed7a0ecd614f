import Concord.Proofs.Record.Language
import Concord.Signal

/-!
The datagrams that hold a signal are those that writing one produces, and every other datagram is
refused: for its size, or with the right size for its code.
-/

namespace Concord

/-- What reads as words has four bytes for each of them. -/
theorem Word.length_of_decode? {b : Bytes} {words : List UInt32} (h : Word.decode? b = some words) :
    b.length = 4 * words.length := by
  fun_induction Word.decode? b generalizing words with
  | case1 =>
    cases h
    rfl
  | case2 w x y z rest ih =>
    obtain ⟨others, read, rfl⟩ := Option.map_eq_some_iff.mp h
    have length := ih read
    simp only [List.length_cons]
    omega
  | case3 => cases h

namespace Signal

theorem encode_eq_words (s : Signal) : s.encode = [s.code, s.member.rank].flatMap Word.encode := rfl

theorem encode_length (s : Signal) : s.encode.length = size := rfl

theorem head?_encode (s : Signal) : Word.head? s.encode = some s.code := Word.head?_encode s.code _

theorem ofWords_code (s : Signal) : ofWords s.code s.member.rank = .ok s := by
  cases s <;> rfl

/-- The codes of the signals are one, two and six. -/
theorem code_ne_iff {code : UInt32} :
    (∀ s : Signal, s.code ≠ code) ↔ code.toNat ≠ 1 ∧ code.toNat ≠ 2 ∧ code.toNat ≠ 6 := by
  have word (n : UInt32) : n ≠ code ↔ code.toNat ≠ n.toNat := by
    rw [Ne, Ne, UInt32.toNat_inj, eq_comm]
  constructor
  · intro other
    exact ⟨(word 1).mp (other (.alive default)), (word 2).mp (other (.aliveAnswer default)),
      (word 6).mp (other (.heartbeat default))⟩
  · rintro ⟨one, two, six⟩ s
    cases s with
    | alive => exact (word 1).mpr one
    | aliveAnswer => exact (word 2).mpr two
    | heartbeat => exact (word 6).mpr six

theorem ofWords_of_unknown {code rank : UInt32} (other : ∀ s : Signal, s.code ≠ code) :
    ofWords code rank = .error (.unknownCode code) := by
  have alive : code ≠ 1 := (other (.alive default)).symm
  have aliveAnswer : code ≠ 2 := (other (.aliveAnswer default)).symm
  have heartbeat : code ≠ 6 := (other (.heartbeat default)).symm
  rw [ofWords, if_neg alive, if_neg aliveAnswer, if_neg heartbeat]

theorem decode_words (code rank : UInt32) :
    decode ([code, rank].flatMap Word.encode) = ofWords code rank := by
  rw [decode, Word.decode?_encode]

theorem decode_encode (s : Signal) : decode s.encode = .ok s := by
  rw [encode_eq_words, decode_words, ofWords_code]

/-- What a datagram holds, or why it is refused. -/
inductive Reads : Bytes → Except SignalError Signal → Prop where
  | misfit {b : Bytes} : b.length ≠ size → Reads b (.error (.wrongSize b.length))
  | unknown {b : Bytes} {code : UInt32} : b.length = size → Word.head? b = some code →
    (∀ s : Signal, s.code ≠ code) → Reads b (.error (.unknownCode code))
  | signal (s : Signal) : Reads s.encode (.ok s)

theorem exists_words_of_fits {b : Bytes} (fits : b.length = size) :
    ∃ code rank : UInt32, b = [code, rank].flatMap Word.encode := by
  obtain ⟨words, length, rfl⟩ := Word.exists_words (n := 2) fits
  match words, length with
  | [code, rank], _ => exact ⟨code, rank, rfl⟩

theorem exists_reads (b : Bytes) : ∃ verdict, Reads b verdict := by
  by_cases fits : b.length = size
  · obtain ⟨code, rank, rfl⟩ := exists_words_of_fits fits
    by_cases known : ∃ s : Signal, s.code = code
    · obtain ⟨s, rfl⟩ := known
      cases s with
      | alive => exact ⟨_, .signal (.alive ⟨rank⟩)⟩
      | aliveAnswer => exact ⟨_, .signal (.aliveAnswer ⟨rank⟩)⟩
      | heartbeat => exact ⟨_, .signal (.heartbeat ⟨rank⟩)⟩
    · exact ⟨_, .unknown fits (Word.head?_encode code _) (not_exists.mp known)⟩
  · exact ⟨_, .misfit fits⟩

theorem Reads.decode_eq {b : Bytes} {verdict : Except SignalError Signal} (h : Reads b verdict) :
    decode b = verdict := by
  cases h with
  | misfit misfit =>
    unfold decode
    split
    · rename_i words
      exact absurd (Word.length_of_decode? words) misfit
    · rfl
  | unknown fits lead other =>
    obtain ⟨first, rank, rfl⟩ := exists_words_of_fits fits
    obtain rfl := Option.some.inj ((Word.head?_encode first _).symm.trans lead)
    rw [decode_words, ofWords_of_unknown other]
  | signal s => exact decode_encode s

theorem decode_eq_iff {b : Bytes} {verdict : Except SignalError Signal} :
    decode b = verdict ↔ Reads b verdict := by
  refine ⟨?_, Reads.decode_eq⟩
  rintro rfl
  obtain ⟨verdict, h⟩ := exists_reads b
  rw [h.decode_eq]
  exact h

end Signal

end Concord
