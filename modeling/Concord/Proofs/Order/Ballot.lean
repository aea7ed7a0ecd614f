import Concord.Order.Ballot

/-!
The stamp that wins a ballot is one of the proposals in it, and no proposal has a greater number.
-/

namespace Concord.Ballot

theorem best?_eq_none {l : List (MemberId × UInt32)} : best? l = none ↔ l = [] := by
  cases l with
  | nil => exact ⟨fun _ => rfl, fun _ => rfl⟩
  | cons e rest =>
    unfold best?
    refine ⟨fun h => ?_, fun h => by cases h⟩
    split at h
    · cases h
    · split at h <;> cases h

theorem best?_mem {l : List (MemberId × UInt32)} {s : Stamp} (h : best? l = some s) :
    (s.proposer, s.number) ∈ l := by
  induction l generalizing s with
  | nil => cases h
  | cons e rest ih =>
    unfold best? at h
    split at h
    · cases h
      exact List.mem_cons_self
    · rename_i t ht
      split at h
      · cases h
        exact List.mem_cons_of_mem _ (ih ht)
      · cases h
        exact List.mem_cons_self

/-- A stamp that is not the better one has no greater number. -/
theorem number_le_of_not_better {a b : Stamp} (h : ¬ better a b = true) : a.number ≤ b.number := by
  simp only [better, Bool.or_eq_true, decide_eq_true_eq] at h
  exact UInt32.not_lt.mp fun lt => h (.inl lt)

/-- Nothing in a ballot is better than what is picked from it. -/
theorem not_better_best? {l : List (MemberId × UInt32)} {s : Stamp} (h : best? l = some s)
    {member : MemberId} {number : UInt32} (listed : (member, number) ∈ l) :
    ¬ better ⟨number, member⟩ s = true := by
  induction l generalizing s with
  | nil => cases listed
  | cons e rest ih =>
    have split {a b : Stamp} : better a b = true ↔
        b.number < a.number ∨ a.number = b.number ∧ a.proposer.rank < b.proposer.rank := by
      simp [better]
    unfold best? at h
    split at h
    · rename_i none
      rw [best?_eq_none.mp none, List.mem_singleton] at listed
      cases h
      cases listed
      simp [split]
    · rename_i t ht
      split at h
      · rename_i keeps
        cases h
        rcases List.mem_cons.mp listed with rfl | listed
        · rw [split] at keeps ⊢
          grind
        · exact ih ht listed
      · rename_i beaten
        cases h
        rcases List.mem_cons.mp listed with same | listed
        · cases same
          simp [split]
        · have later := ih ht listed
          rw [split] at beaten later ⊢
          grind

theorem number_le_best? {l : List (MemberId × UInt32)} {s : Stamp} (h : best? l = some s)
    {member : MemberId} {number : UInt32} (listed : (member, number) ∈ l) : number ≤ s.number :=
  number_le_of_not_better (a := ⟨number, member⟩) (not_better_best? h listed)

/-- The winner was proposed by the member it names. -/
theorem get?_winner {b : Ballot} {s : Stamp} (h : b.winner? = some s) :
    b.get? s.proposer = some s.number :=
  Table.mem_entries_iff.mp (best?_mem h)

theorem le_winner {b : Ballot} {s : Stamp} (h : b.winner? = some s) {member : MemberId}
    {number : UInt32} (cast : b.get? member = some number) : number ≤ s.number :=
  number_le_best? h (Table.mem_entries_iff.mpr cast)

/-- Every ballot with a proposal has a winner. -/
theorem exists_winner {b : Ballot} {member : MemberId} {number : UInt32}
    (cast : b.get? member = some number) : ∃ s, b.winner? = some s := by
  cases found : b.winner? with
  | some s => exact ⟨s, rfl⟩
  | none =>
    have listed := Table.mem_entries_iff.mpr cast
    rw [best?_eq_none.mp found] at listed
    cases listed

end Concord.Ballot
