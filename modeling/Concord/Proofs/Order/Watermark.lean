import Concord.Proofs.Order.SeenIds
import Mathlib.Logic.Relation

/-!
The watermark moves turn by turn, over one number at a time. However a state came about the turns
end, since each takes a number from the roll, and where they end a gap follows the watermark. So the
state is a normal form: it is settled by which numbers were inserted, not by their order.
-/

namespace Concord.SeenIds

/-- One turn: the number after the watermark goes from the roll into the watermark. -/
inductive Turn : SeenIds → SeenIds → Prop where
  | pass {w n : UInt32} {above : Roll UInt32} (next : n.toNat = w.toNat + 1) (listed : n ∈ above) :
      Turn ⟨w, above⟩ ⟨n, above.erase n⟩

/-- The turns lead from one state to another and end there. -/
def Ends (s t : SeenIds) : Prop := Relation.ReflTransGen Turn s t ∧ ∀ u, ¬ Turn t u

/-- A gap follows the watermark: the roll lists only numbers behind it. -/
def Settled (s : SeenIds) : Prop := ∀ x ∈ s.above, s.watermark.toNat + 1 < x.toNat

variable {s t u : SeenIds}

/-- There is no number after the last. -/
theorem not_turn_of_last {above : Roll UInt32} : ¬ Turn ⟨0xFFFFFFFF, above⟩ t := by
  intro turn
  cases turn with
  | @pass _ n _ next _ =>
    have := n.toNat_lt
    have : (0xFFFFFFFF : UInt32).toNat = 0xFFFFFFFF := rfl
    omega

theorem Turn.unique (first : Turn s t) (second : Turn s u) : t = u := by
  cases first with
  | pass next _ =>
    cases second with
    | pass next' _ =>
      obtain rfl := UInt32.toNat.inj (next.trans next'.symm)
      rfl

theorem Turn.length_lt (h : Turn s t) : t.above.toList.length < s.above.toList.length := by
  cases h with
  | pass _ listed =>
    apply List.length_filter_lt_length_iff_exists.mpr
    exact ⟨_, listed, by simp⟩

/-- No state has turns without end. -/
theorem wellFounded_turn : WellFounded fun t s => Turn s t :=
  Subrelation.wf Turn.length_lt (measure fun s : SeenIds => s.above.toList.length).wf

theorem advance_of_turn (h : Turn s t) (steps : Nat) : advance (steps + 1) s = advance steps t := by
  cases h with
  | pass next listed =>
    rw [advance]
    simp only [next?_eq_some_iff.mpr next, if_pos listed]

theorem advance_of_not_turn (h : ∀ t, ¬ Turn s t) (steps : Nat) : advance steps s = s := by
  cases steps with
  | zero => rfl
  | succ steps =>
    rw [advance]
    split
    · rfl
    · rename_i n next
      exact if_neg fun listed => h _ (.pass (next?_eq_some_iff.mp next) listed)

theorem ends_advance {steps : Nat} (enough : s.above.toList.length ≤ steps) :
    Ends s (advance steps s) := by
  induction steps generalizing s with
  | zero =>
    refine ⟨.refl, fun t turn => ?_⟩
    have shorter : t.above.toList.length < s.above.toList.length := turn.length_lt
    omega
  | succ steps ih =>
    by_cases more : ∃ t, Turn s t
    · obtain ⟨t, turn⟩ := more
      have shorter := turn.length_lt
      obtain ⟨turns, rest⟩ := ih (s := t) (by omega)
      rw [advance_of_turn turn]
      exact ⟨.head turn turns, rest⟩
    · have rest := not_exists.mp more
      rw [advance_of_not_turn rest]
      exact ⟨.refl, rest⟩

theorem Ends.unique (first : Ends s t) (second : Ends s u) : t = u := by
  obtain ⟨turns, rest⟩ := first
  obtain ⟨turns', rest'⟩ := second
  have ordered : Relation.ReflTransGen Turn t u ∨ Relation.ReflTransGen Turn u t :=
    Relation.ReflTransGen.total_of_right_unique (fun _ _ _ => Turn.unique) turns turns'
  obtain on | on := ordered
  · obtain same | ⟨v, turn, -⟩ := on.cases_head
    · exact same
    · exact absurd turn (rest v)
  · obtain same | ⟨v, turn, -⟩ := on.cases_head
    · exact same.symm
    · exact absurd turn (rest' v)

/-- A number above the watermark is put on the roll, and the turns that are then due are taken. -/
theorem ends_insert {n : UInt32} (new : s.watermark < n) :
    Ends ⟨s.watermark, s.above.insert n⟩ (s.insert n) := by
  rw [insert, if_neg (UInt32.not_le.mpr new)]
  exact ends_advance (Nat.le_refl _)

/-! ### The gap -/

theorem Turn.above_lt (h : Turn s t) (behind : ∀ x ∈ s.above, s.watermark < x) :
    ∀ x ∈ t.above, t.watermark < x := by
  cases h with
  | @pass w n above next _ =>
    intro x listed
    obtain ⟨listed, other⟩ := Roll.mem_erase.mp listed
    have lt : w.toNat < x.toNat := UInt32.lt_iff_toNat_lt.mp (behind x listed)
    have ne : x.toNat ≠ n.toNat := fun same => other (UInt32.toNat.inj same)
    rw [UInt32.lt_iff_toNat_lt]
    dsimp only
    omega

theorem above_lt_of_turns (h : Relation.ReflTransGen Turn s t)
    (behind : ∀ x ∈ s.above, s.watermark < x) : ∀ x ∈ t.above, t.watermark < x := by
  induction h with
  | refl => exact behind
  | tail _ turn ih => exact turn.above_lt ih

theorem Ends.settled (h : Ends s t) (behind : ∀ x ∈ s.above, s.watermark < x) : t.Settled := by
  obtain ⟨turns, rest⟩ := h
  intro x listed
  have lt := UInt32.lt_iff_toNat_lt.mp (above_lt_of_turns turns behind x listed)
  have gap : x.toNat ≠ t.watermark.toNat + 1 := fun next => rest _ (.pass next listed)
  omega

theorem settled_none : none.Settled := fun x listed => absurd listed (Roll.not_mem_empty x)

theorem Settled.lt (h : s.Settled) {x : UInt32} (listed : x ∈ s.above) : s.watermark < x := by
  have := h x listed
  rw [UInt32.lt_iff_toNat_lt]
  omega

theorem Settled.insert (h : s.Settled) (n : UInt32) : (s.insert n).Settled := by
  by_cases new : s.watermark < n
  · apply (ends_insert new).settled
    intro x listed
    obtain rfl | listed := Roll.mem_insert.mp listed
    · exact new
    · exact h.lt listed
  · rwa [SeenIds.insert, if_pos (UInt32.not_lt.mp new)]

theorem contains_none {x : UInt32} : none.contains x = true ↔ x = 0 := by
  have nothing : x ∉ none.above := Roll.not_mem_empty x
  have lowest : x ≤ none.watermark ↔ x.toNat ≤ 0 := UInt32.le_iff_toNat_le
  rw [contains_iff, or_iff_left nothing, lowest, Nat.le_zero, ← UInt32.toNat_inj]
  rfl

/-- The watermark is as high as the numbers that count as delivered let it be. -/
theorem Settled.le_watermark_iff (h : s.Settled) {x : UInt32} :
    x ≤ s.watermark ↔ ∀ y ≤ x, s.contains y = true := by
  constructor
  · intro below y le
    exact contains_iff.mpr (.inl (UInt32.le_trans le below))
  · intro all
    apply UInt32.not_lt.mp
    intro lt
    have lt := UInt32.lt_iff_toNat_lt.mp lt
    have small := x.toNat_lt
    have succ : (s.watermark + 1).toNat = (s.watermark.toNat + 1) % 2 ^ 32 := UInt32.toNat_add ..
    -- The number after the watermark would have to be contained, and it is not.
    have next : s.contains (s.watermark + 1) = true :=
      all _ (UInt32.le_iff_toNat_le.mpr (by omega))
    obtain below | listed := contains_iff.mp next
    · have := UInt32.le_iff_toNat_le.mp below
      omega
    · have := h _ listed
      omega

theorem Settled.mem_above_iff (h : s.Settled) {x : UInt32} :
    x ∈ s.above ↔ s.contains x = true ∧ ¬ x ≤ s.watermark := by
  rw [contains_iff]
  constructor
  · intro listed
    exact ⟨.inr listed, UInt32.not_le.mpr (h.lt listed)⟩
  · rintro ⟨below | listed, new⟩
    · exact absurd below new
    · exact listed

/-- Settled states that contain the same numbers are the same state. -/
theorem Settled.ext (hs : s.Settled) (ht : t.Settled)
    (same : ∀ x, s.contains x = true ↔ t.contains x = true) : s = t := by
  have below (x : UInt32) : x ≤ s.watermark ↔ x ≤ t.watermark := by
    simp only [hs.le_watermark_iff, ht.le_watermark_iff, same]
  have watermarks : s.watermark = t.watermark :=
    UInt32.le_antisymm ((below _).mp (UInt32.le_refl _)) ((below _).mpr (UInt32.le_refl _))
  have rolls : s.above = t.above := Roll.ext fun x => by
    simp only [hs.mem_above_iff, ht.mem_above_iff, same, below]
  cases s
  cases t
  cases watermarks
  cases rolls
  rfl

/-! ### Calls -/

/-- The state after these numbers were inserted, in this order. -/
def inserted (ids : List UInt32) : SeenIds := ids.foldl SeenIds.insert none

theorem settled_inserted (ids : List UInt32) : (inserted ids).Settled := by
  have run {s : SeenIds} (h : s.Settled) : (ids.foldl SeenIds.insert s).Settled := by
    induction ids generalizing s with
    | nil => exact h
    | cons n rest ih => exact ih (h.insert n)
  exact run settled_none

theorem contains_inserted {ids : List UInt32} {x : UInt32} :
    (inserted ids).contains x = true ↔ x = 0 ∨ x ∈ ids := by
  have run (s : SeenIds) :
      (ids.foldl SeenIds.insert s).contains x = true ↔ s.contains x = true ∨ x ∈ ids := by
    induction ids generalizing s with
    | nil => simp
    | cons n rest ih =>
      rw [List.foldl_cons, ih, contains_insert, List.mem_cons, or_assoc, or_left_comm]
  rw [inserted, run, contains_none]

/-- What was inserted settles the state, whatever the order and the repetitions; zero makes no
difference. -/
theorem inserted_eq_iff {ids other : List UInt32} :
    inserted other = inserted ids ↔ ∀ x, x ≠ 0 → (x ∈ other ↔ x ∈ ids) := by
  constructor
  · intro same x nonzero
    have contained : (inserted other).contains x = true ↔ (inserted ids).contains x = true := by
      rw [same]
    rwa [contains_inserted, contains_inserted, or_iff_right nonzero, or_iff_right nonzero]
      at contained
  · intro same
    apply (settled_inserted other).ext (settled_inserted ids)
    intro x
    rw [contains_inserted, contains_inserted]
    by_cases zero : x = 0
    · exact iff_of_true (.inl zero) (.inl zero)
    · exact or_congr_right (same x zero)

/-- The numbers of a sender's delivered messages are kept exactly, in a form that only their set
decides: the watermark is as high as they let it be, and the roll lists those behind a gap. No
state, reached or not, lets the watermark move for ever, and a call ends where its turns end. -/
theorem exact_normal_form (ids : List UInt32) :
    (∀ x, (inserted ids).contains x = true ↔ x = 0 ∨ x ∈ ids) ∧
    (∀ x ∈ (inserted ids).above, (inserted ids).watermark.toNat + 1 < x.toNat) ∧
    (∀ x, x ≤ (inserted ids).watermark ↔ ∀ y ≤ x, y = 0 ∨ y ∈ ids) ∧
    (∀ other, inserted other = inserted ids ↔ ∀ x, x ≠ 0 → (x ∈ other ↔ x ∈ ids)) ∧
    (WellFounded fun t s => Turn s t) ∧
    (∀ above t, ¬ Turn ⟨0xFFFFFFFF, above⟩ t) ∧
    ∀ (s : SeenIds) (n : UInt32), s.watermark < n →
      ∀ t, Ends ⟨s.watermark, s.above.insert n⟩ t ↔ t = s.insert n := by
  refine ⟨fun _ => contains_inserted, settled_inserted ids, ?_, fun _ => inserted_eq_iff,
    wellFounded_turn, fun _ _ => not_turn_of_last, ?_⟩
  · intro x
    simp only [(settled_inserted ids).le_watermark_iff, contains_inserted]
  · intro s n new t
    constructor
    · exact fun ends => ends.unique (ends_insert new)
    · rintro rfl
      exact ends_insert new

end Concord.SeenIds
