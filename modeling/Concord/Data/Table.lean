/-!
A table holds one value per key. Entries keep the order in which their keys were first put, and
putting a key again replaces its value in place.
-/

namespace Concord

/-- Where no key occurs twice, a key finds what has it. -/
theorem find?_eq_some_iff_of_distinct {α κ : Type} [DecidableEq κ] {key : α → κ} {l : List α}
    (distinct : (l.map key).Nodup) {k : κ} {a : α} :
    l.find? (key · = k) = some a ↔ a ∈ l ∧ key a = k := by
  induction l with
  | nil => simp
  | cons b rest ih =>
    obtain ⟨hb, hrest⟩ := List.nodup_cons.mp distinct
    rw [List.find?_cons, List.mem_cons]
    by_cases hk : key b = k
    · have alone : a ∈ rest → key a ≠ k := fun later same =>
        hb (hk.trans same.symm ▸ List.mem_map_of_mem later)
      simp only [hk, decide_true, Option.some.injEq]
      constructor
      · rintro rfl
        exact ⟨.inl rfl, hk⟩
      · rintro ⟨here | later, same⟩
        · exact here.symm
        · exact absurd same (alone later)
    · simp only [hk, decide_false, ih hrest]
      constructor
      · exact fun ⟨later, same⟩ => ⟨.inr later, same⟩
      · rintro ⟨rfl | later, same⟩
        · exact absurd same hk
        · exact ⟨later, same⟩

structure Table (κ ν : Type) where
  entries : List (κ × ν)
  distinct : (entries.map Prod.fst).Nodup

namespace Table

variable {κ ν : Type}

def empty : Table κ ν := ⟨[], by simp⟩

instance : Inhabited (Table κ ν) := ⟨empty⟩

def keys (t : Table κ ν) : List κ := t.entries.map Prod.fst

def size (t : Table κ ν) : Nat := t.entries.length

variable [DecidableEq κ]

/-- Replaces the value of a key in place, or appends the key. -/
def putIn (k : κ) (v : ν) : List (κ × ν) → List (κ × ν)
  | [] => [(k, v)]
  | e :: rest => if e.1 = k then (k, v) :: rest else e :: putIn k v rest

theorem mem_keys_putIn {k x : κ} {v : ν} {l : List (κ × ν)} :
    x ∈ (putIn k v l).map Prod.fst ↔ x = k ∨ x ∈ l.map Prod.fst := by
  induction l with
  | nil => simp [putIn]
  | cons e rest ih =>
    unfold putIn
    split
    · rename_i h
      simp only [List.map_cons, List.mem_cons, h]
      exact ⟨.inr, fun hx => hx.elim .inl id⟩
    · simp only [List.map_cons, List.mem_cons, ih]
      exact or_left_comm

theorem nodup_putIn (k : κ) (v : ν) {l : List (κ × ν)} (h : (l.map Prod.fst).Nodup) :
    ((putIn k v l).map Prod.fst).Nodup := by
  induction l with
  | nil => simp [putIn]
  | cons e rest ih =>
    obtain ⟨he, hrest⟩ := List.nodup_cons.mp h
    unfold putIn
    split
    · rename_i hk
      exact List.nodup_cons.mpr ⟨hk ▸ he, hrest⟩
    · rename_i hk
      refine List.nodup_cons.mpr ⟨fun hx => ?_, ih hrest⟩
      rcases mem_keys_putIn.mp hx with hx | hx
      · exact hk hx
      · exact he hx

def put (t : Table κ ν) (k : κ) (v : ν) : Table κ ν := ⟨putIn k v t.entries, nodup_putIn k v t.distinct⟩

def get? (t : Table κ ν) (k : κ) : Option ν := (t.entries.find? (·.1 = k)).map Prod.snd

theorem mem_entries_iff {t : Table κ ν} {k : κ} {v : ν} : (k, v) ∈ t.entries ↔ t.get? k = some v := by
  rw [get?, Option.map_eq_some_iff]
  simp only [find?_eq_some_iff_of_distinct t.distinct]
  constructor
  · exact fun h => ⟨(k, v), ⟨h, rfl⟩, rfl⟩
  · rintro ⟨e, ⟨h, rfl⟩, rfl⟩
    exact h

theorem mem_keys_iff {t : Table κ ν} {k : κ} : k ∈ t.keys ↔ ∃ v, t.get? k = some v := by
  simp only [keys, List.mem_map, ← mem_entries_iff]
  constructor
  · rintro ⟨⟨k, v⟩, h, rfl⟩
    exact ⟨v, h⟩
  · rintro ⟨v, h⟩
    exact ⟨(k, v), h, rfl⟩

/-- A table without any value has no entries. -/
theorem entries_eq_nil {t : Table κ ν} (h : ∀ k, t.get? k = none) : t.entries = [] := by
  refine List.eq_nil_iff_forall_not_mem.mpr fun ⟨k, v⟩ hkv => ?_
  rw [mem_entries_iff, h k] at hkv
  cases hkv

theorem find?_putIn (k x : κ) (v : ν) (l : List (κ × ν)) :
    (putIn k v l).find? (·.1 = x) = if k = x then some (k, v) else l.find? (·.1 = x) := by
  induction l with
  | nil =>
    by_cases h : k = x
    · simp [putIn, h]
    · simp [putIn, h]
  | cons e rest ih =>
    unfold putIn
    by_cases he : e.1 = k
    · by_cases h : k = x
      · simp [he, h]
      · simp [he, h]
    · rw [if_neg he]
      by_cases hx : e.1 = x
      · have h : k ≠ x := fun h => he (hx.trans h.symm)
        simp [h, hx]
      · rw [List.find?_cons_of_neg (by simpa using hx), ih,
          List.find?_cons_of_neg (by simpa using hx)]

/-- Putting a key changes what is found under this key and nothing else. -/
theorem get?_put (t : Table κ ν) (k x : κ) (v : ν) :
    (t.put k v).get? x = if k = x then some v else t.get? x := by
  rw [get?, put, find?_putIn]
  split <;> rfl

def contains (t : Table κ ν) (k : κ) : Bool := t.entries.any (·.1 = k)

theorem contains_iff {t : Table κ ν} {k : κ} : t.contains k = true ↔ ∃ v, t.get? k = some v := by
  rw [← mem_keys_iff, contains, List.any_eq_true, keys, List.mem_map]
  simp only [decide_eq_true_eq]

def erase (t : Table κ ν) (k : κ) : Table κ ν where
  entries := t.entries.filter (·.1 ≠ k)
  distinct := t.distinct.sublist ((List.filter_sublist).map Prod.fst)

theorem keys_erase_sublist (t : Table κ ν) (k : κ) : (t.erase k).keys.Sublist t.keys :=
  List.filter_sublist.map Prod.fst

theorem get?_erase (t : Table κ ν) (k x : κ) :
    (t.erase k).get? x = if k = x then none else t.get? x := by
  have found : (t.erase k).entries.find? (·.1 = x) =
      if k = x then none else t.entries.find? (·.1 = x) := by
    rw [erase, List.find?_filter]
    by_cases h : k = x
    · rw [if_pos h, List.find?_eq_none]
      intro e _
      simp [h]
    · rw [if_neg h]
      congr 1
      funext e
      by_cases he : e.1 = x
      · simp [he, Ne.symm h]
      · simp [he]
  rw [get?, found]
  split <;> rfl

theorem filter_putIn (k : κ) (v : ν) (l : List (κ × ν)) :
    (putIn k v l).filter (·.1 ≠ k) = l.filter (·.1 ≠ k) := by
  induction l with
  | nil => simp [putIn]
  | cons e rest ih =>
    unfold putIn
    split
    · rename_i here
      simp [here]
    · rw [List.filter_cons, List.filter_cons, ih]

/-- What was put under a key that is erased leaves no trace. -/
theorem erase_put (t : Table κ ν) (k : κ) (v : ν) : (t.put k v).erase k = t.erase k := by
  unfold erase
  simp only [put, filter_putIn]

theorem putIn_of_mem {k : κ} (v : ν) {l : List (κ × ν)} (h : k ∈ l.map Prod.fst) :
    (putIn k v l).map Prod.fst = l.map Prod.fst := by
  induction l with
  | nil => cases h
  | cons e rest ih =>
    unfold putIn
    split
    · rename_i here
      rw [List.map_cons, List.map_cons, here]
    · rename_i there
      rw [List.map_cons, List.map_cons, ih ((List.mem_cons.mp h).resolve_left (Ne.symm there))]

/-- A key that is put again keeps its place. -/
theorem keys_put {t : Table κ ν} {k : κ} (h : k ∈ t.keys) (v : ν) : (t.put k v).keys = t.keys :=
  putIn_of_mem v h

theorem putIn_of_not_mem {k : κ} (v : ν) {l : List (κ × ν)} (h : k ∉ l.map Prod.fst) :
    putIn k v l = l ++ [(k, v)] := by
  induction l with
  | nil => rfl
  | cons e rest ih =>
    rw [List.map_cons, List.mem_cons, not_or] at h
    rw [putIn, if_neg (Ne.symm h.1), ih h.2, List.cons_append]

theorem keys_put_of_not_mem {t : Table κ ν} {k : κ} (h : k ∉ t.keys) (v : ν) :
    (t.put k v).keys = t.keys ++ [k] := by
  simp only [keys, put, putIn_of_not_mem v h, List.map_append, List.map_cons, List.map_nil]

def ofList (l : List (κ × ν)) : Table κ ν := l.foldl (fun t e => t.put e.1 e.2) empty

/-- Entries whose keys are distinct are kept as they are listed. -/
theorem entries_ofList {l : List (κ × ν)} (distinct : (l.map Prod.fst).Nodup) :
    (ofList l).entries = l := by
  have grown (t : Table κ ν) (fresh : ((t.entries ++ l).map Prod.fst).Nodup) :
      (l.foldl (fun t e => t.put e.1 e.2) t).entries = t.entries ++ l := by
    clear distinct
    induction l generalizing t with
    | nil => exact (List.append_nil _).symm
    | cons e rest ih =>
      have absent : e.1 ∉ t.entries.map Prod.fst := by
        intro old
        rw [List.map_append] at fresh
        exact (List.nodup_append.mp fresh).2.2 _ old _ (by simp) rfl
      have put : (t.put e.1 e.2).entries = t.entries ++ [e] := putIn_of_not_mem e.2 absent
      rw [List.foldl_cons, ih, put, List.append_assoc, List.singleton_append]
      rw [put, List.append_assoc, List.singleton_append]
      exact fresh
  exact grown empty distinct

/-- Applies a function to every value; keys and their order stay. -/
def mapValues (f : κ → ν → ν) (t : Table κ ν) : Table κ ν where
  entries := t.entries.map fun e => (e.1, f e.1 e.2)
  distinct := by simpa [List.map_map, Function.comp_def] using t.distinct

omit [DecidableEq κ] in
theorem keys_mapValues (f : κ → ν → ν) (t : Table κ ν) : (t.mapValues f).keys = t.keys := by
  simp [keys, mapValues, Function.comp_def]

theorem get?_mapValues (f : κ → ν → ν) (t : Table κ ν) (k : κ) :
    (t.mapValues f).get? k = (t.get? k).map (f k) := by
  ext v
  rw [← mem_entries_iff, Option.map_eq_some_iff]
  simp only [← mem_entries_iff, mapValues, List.mem_map, Prod.mk.injEq]
  constructor
  · rintro ⟨⟨k, u⟩, h, rfl, rfl⟩
    exact ⟨u, h, rfl⟩
  · rintro ⟨u, h, rfl⟩
    exact ⟨(k, u), h, rfl, rfl⟩

/-- Keeps the entries that pass a test. -/
def filter (p : κ → ν → Bool) (t : Table κ ν) : Table κ ν where
  entries := t.entries.filter fun e => p e.1 e.2
  distinct := t.distinct.sublist ((List.filter_sublist).map Prod.fst)

omit [DecidableEq κ] in
theorem keys_filter_sublist (p : κ → ν → Bool) (t : Table κ ν) :
    (t.filter p).keys.Sublist t.keys := List.filter_sublist.map Prod.fst

theorem get?_filter_eq_some {p : κ → ν → Bool} {t : Table κ ν} {k : κ} {v : ν} :
    (t.filter p).get? k = some v ↔ t.get? k = some v ∧ p k v = true := by
  rw [← mem_entries_iff, ← mem_entries_iff, filter, List.mem_filter]

end Table

end Concord
