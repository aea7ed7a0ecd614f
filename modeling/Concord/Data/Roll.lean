/-!
A roll lists entries in ascending rank, each once. The order is part of the type, so two rolls
with the same entries are equal.
-/

namespace Concord

/-- Entries that are told apart and ordered by a natural number. -/
class Ranked (α : Type) where
  rank : α → Nat
  rank_inj : ∀ {a b : α}, rank a = rank b → a = b

instance : Ranked UInt32 where
  rank := UInt32.toNat
  rank_inj := UInt32.toNat.inj

structure Roll (α : Type) [Ranked α] where
  toList : List α
  ascending : toList.Pairwise (fun a b => Ranked.rank a < Ranked.rank b)

namespace Roll

variable {α : Type} [Ranked α]

/-- Puts an entry at its place in an ascending list, unless it is there already. -/
def place (a : α) : List α → List α
  | [] => [a]
  | b :: rest =>
    if Ranked.rank a < Ranked.rank b then a :: b :: rest
    else if Ranked.rank a = Ranked.rank b then b :: rest
    else b :: place a rest

theorem mem_place {a x : α} {l : List α} : x ∈ place a l ↔ x = a ∨ x ∈ l := by
  induction l with
  | nil => simp [place]
  | cons b rest ih =>
    unfold place
    split
    · simp
    · split
      · rename_i h
        rw [Ranked.rank_inj h, List.mem_cons]
        exact ⟨Or.inr, fun hx => hx.elim Or.inl id⟩
      · simp only [List.mem_cons, ih]
        exact or_left_comm

theorem pairwise_place (a : α) {l : List α}
    (h : l.Pairwise (fun x y => Ranked.rank x < Ranked.rank y)) :
    (place a l).Pairwise (fun x y => Ranked.rank x < Ranked.rank y) := by
  induction l with
  | nil => simp [place]
  | cons b rest ih =>
    obtain ⟨hb, hrest⟩ := List.pairwise_cons.mp h
    unfold place
    split
    · rename_i hab
      refine List.pairwise_cons.mpr ⟨fun x hx => ?_, h⟩
      rcases List.mem_cons.mp hx with rfl | hx
      · exact hab
      · exact Nat.lt_trans hab (hb x hx)
    · split
      · exact h
      · refine List.pairwise_cons.mpr ⟨fun x hx => ?_, ih hrest⟩
        rcases mem_place.mp hx with rfl | hx
        · omega
        · exact hb x hx

def empty : Roll α := ⟨[], .nil⟩

instance : Inhabited (Roll α) := ⟨empty⟩

def insert (s : Roll α) (a : α) : Roll α := ⟨place a s.toList, pairwise_place a s.ascending⟩

def ofList (l : List α) : Roll α := l.foldl insert empty

def isEmpty (s : Roll α) : Bool := s.toList.isEmpty

instance : Membership α (Roll α) := ⟨fun s a => a ∈ s.toList⟩

theorem mem_iff {a : α} {s : Roll α} : a ∈ s ↔ a ∈ s.toList := Iff.rfl

theorem not_mem_empty (a : α) : a ∉ (empty : Roll α) := by
  intro h
  cases h

theorem mem_insert {a x : α} {s : Roll α} : x ∈ s.insert a ↔ x = a ∨ x ∈ s := mem_place

theorem mem_foldl_insert {x : α} {l : List α} {s : Roll α} :
    x ∈ l.foldl insert s ↔ x ∈ l ∨ x ∈ s := by
  induction l generalizing s with
  | nil => simp
  | cons a rest ih =>
    rw [List.foldl_cons, ih, mem_insert, List.mem_cons]
    constructor
    · rintro (hx | rfl | hx)
      · exact .inl (.inr hx)
      · exact .inl (.inl rfl)
      · exact .inr hx
    · rintro ((rfl | hx) | hx)
      · exact .inr (.inl rfl)
      · exact .inl hx
      · exact .inr (.inr hx)

theorem mem_ofList {x : α} {l : List α} : x ∈ ofList l ↔ x ∈ l := by
  rw [ofList, mem_foldl_insert]
  exact ⟨fun h => h.resolve_right (not_mem_empty x), .inl⟩

/-- Ascending lists with the same entries are equal: the least entry comes first in both. -/
theorem eq_of_ascending {l k : List α}
    (hl : l.Pairwise (fun a b => Ranked.rank a < Ranked.rank b))
    (hk : k.Pairwise (fun a b => Ranked.rank a < Ranked.rank b))
    (same : ∀ x, x ∈ l ↔ x ∈ k) : l = k := by
  induction l generalizing k with
  | nil =>
    cases k with
    | nil => rfl
    | cons b _ => cases (same b).mpr (List.mem_cons_self ..)
  | cons a rest ih =>
    cases k with
    | nil => cases (same a).mp (List.mem_cons_self ..)
    | cons b others =>
      obtain ⟨ha, hrest⟩ := List.pairwise_cons.mp hl
      obtain ⟨hb, hothers⟩ := List.pairwise_cons.mp hk
      have heads : a = b := by
        rcases List.mem_cons.mp ((same a).mp (List.mem_cons_self ..)) with h | h
        · exact h
        · rcases List.mem_cons.mp ((same b).mpr (List.mem_cons_self ..)) with h' | h'
          · exact h'.symm
          · have := hb a h
            have := ha b h'
            omega
      subst heads
      have tails : ∀ x, x ∈ rest ↔ x ∈ others := by
        intro x
        have hx := same x
        rw [List.mem_cons, List.mem_cons] at hx
        constructor
        · intro h
          rcases hx.mp (.inr h) with rfl | h'
          · exact absurd (ha x h) (Nat.lt_irrefl _)
          · exact h'
        · intro h
          rcases hx.mpr (.inr h) with rfl | h'
          · exact absurd (hb x h) (Nat.lt_irrefl _)
          · exact h'
      rw [ih hrest hothers tails]

theorem nodup_of_ascending {l : List α}
    (h : l.Pairwise fun a b => Ranked.rank a < Ranked.rank b) : l.Nodup := by
  refine h.imp fun {a b} lt same => ?_
  rw [same] at lt
  exact Nat.lt_irrefl _ lt

/-- A roll is determined by its entries. -/
theorem ext {s t : Roll α} (same : ∀ x, x ∈ s ↔ x ∈ t) : s = t := by
  have lists : s.toList = t.toList := eq_of_ascending s.ascending t.ascending same
  cases s
  cases t
  cases lists
  rfl

variable [DecidableEq α]

instance (a : α) (s : Roll α) : Decidable (a ∈ s) := inferInstanceAs (Decidable (a ∈ s.toList))

def erase (s : Roll α) (a : α) : Roll α :=
  ⟨s.toList.filter (· ≠ a), s.ascending.filter _⟩

theorem mem_erase {a x : α} {s : Roll α} : x ∈ s.erase a ↔ x ∈ s ∧ x ≠ a := by
  rw [mem_iff, mem_iff, erase, List.mem_filter, decide_eq_true_eq]

theorem erase_eq_self {a : α} {s : Roll α} (h : a ∉ s) : s.erase a = s := by
  apply ext
  intro x
  rw [mem_erase]
  constructor
  · exact And.left
  · intro hx
    exact ⟨hx, fun same => h (same ▸ hx)⟩

instance : DecidableEq (Roll α) := fun s t =>
  if h : s.toList = t.toList then
    isTrue (by cases s; cases t; cases h; rfl)
  else isFalse (fun e => h (congrArg toList e))

end Roll

end Concord
