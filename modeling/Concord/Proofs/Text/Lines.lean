import Concord.Text.Blank
import Concord.Text.Digits

/-!
The lines of a text, and what is left of one without the white space around it. Both are relations
first: `Lines` says how a text is made of its lines, `Trimmed` how a line is made of its name.
-/

namespace Concord.Text

/-- The lines of a text. A line feed ends a line, alone or after a carriage return that then belongs
to neither line; the last line may lack it. -/
inductive Lines : List Char → List (List Char) → Prop where
  | none : Lines [] []
  | last {line : List Char} (some : line ≠ []) (one : '\n' ∉ line) : Lines line [line]
  | feed {line rest : List Char} {lines : List (List Char)} (one : '\n' ∉ line)
      (bare : line.getLast? ≠ some '\r') (more : Lines rest lines) :
      Lines (line ++ '\n' :: rest) (line :: lines)
  | returnFeed {line rest : List Char} {lines : List (List Char)} (one : '\n' ∉ line)
      (more : Lines rest lines) : Lines (line ++ '\r' :: '\n' :: rest) (line :: lines)

def AllBlank (cs : List Char) : Prop := ∀ c ∈ cs, isBlank c = true

instance (cs : List Char) : Decidable (AllBlank cs) :=
  decidable_of_iff (cs.all isBlank = true) List.all_eq_true

/-- `name` is `line` without the white space around it. -/
structure Trimmed (line name : List Char) : Prop where
  around : ∃ left right, line = left ++ name ++ right ∧ AllBlank left ∧ AllBlank right
  first : ∀ c, name.head? = some c → isBlank c = false
  last : ∀ c, name.getLast? = some c → isBlank c = false

theorem allBlank_append {left right : List Char} :
    AllBlank (left ++ right) ↔ AllBlank left ∧ AllBlank right := List.forall_mem_append

/-! ### Cutting -/

theorem cutAt_eq_splitOn (mark : Char) (cs : List Char) : cutAt mark cs = cs.splitOn mark := by
  induction cs with
  | nil => rfl
  | cons c rest ih =>
    rw [List.splitOn_cons_eq_if_modifyHead, cutAt, ih]
    simp only [beq_iff_eq]
    split
    · rfl
    · obtain ⟨piece, pieces, cut⟩ := List.exists_cons_of_ne_nil (List.splitOn_ne_nil mark rest)
      rw [cut]
      rfl

theorem cutAt_of_not_mem {mark : Char} {cs : List Char} (h : mark ∉ cs) : cutAt mark cs = [cs] := by
  rw [cutAt_eq_splitOn, List.splitOn_eq_singleton h]

theorem cutAt_append_cons (mark : Char) (before after : List Char) :
    cutAt mark (before ++ mark :: after) = cutAt mark before ++ cutAt mark after := by
  simp only [cutAt_eq_splitOn, List.splitOn_append_cons_self]

/-- A text is a line that nothing ends, or a line, what ends it and a shorter text. -/
theorem lineByLine {motive : List Char → Prop} (last : ∀ line, '\n' ∉ line → motive line)
    (feed : ∀ line rest, '\n' ∉ line → motive rest → motive (line ++ '\n' :: rest))
    (cs : List Char) : motive cs := by
  by_cases ended : '\n' ∈ cs
  · obtain ⟨line, rest, cut, one⟩ := List.eq_append_cons_of_mem ended
    have shorter : rest.length < cs.length := by
      rw [cut, List.length_append, List.length_cons]
      omega
    rw [cut]
    exact feed line rest one (lineByLine last feed rest)
  · exact last cs ended
termination_by cs.length

theorem exists_lines (cs : List Char) : ∃ lines, Lines cs lines := by
  induction cs using lineByLine with
  | last line one =>
    by_cases empty : line = []
    · exact ⟨[], empty ▸ .none⟩
    · exact ⟨[line], .last empty one⟩
  | feed line rest one more =>
    obtain ⟨lines, more⟩ := more
    by_cases bare : line.getLast? = some '\r'
    · obtain ⟨body, rfl⟩ := List.getLast?_eq_some_iff.mp bare
      have one : '\n' ∉ body := fun within => one (List.mem_append_left _ within)
      rw [List.append_assoc]
      exact ⟨body :: lines, .returnFeed one more⟩
    · exact ⟨line :: lines, .feed one bare more⟩

/-! ### Trimming -/

theorem trimStart_append {left cs : List Char} (h : AllBlank left) :
    trimStart (left ++ cs) = trimStart cs := List.dropWhile_append_of_pos h

theorem trimStart_eq_self {cs : List Char} (h : ∀ c, cs.head? = some c → isBlank c = false) :
    trimStart cs = cs := by
  cases cs with
  | nil => rfl
  | cons c rest => exact List.dropWhile_cons_of_neg (ne_true_of_eq_false (h c rfl))

theorem AllBlank.reverse {cs : List Char} (h : AllBlank cs) : AllBlank cs.reverse :=
  fun c within => h c (List.mem_reverse.mp within)

theorem trimEnd_append {cs right : List Char} (h : AllBlank right) :
    trimEnd (cs ++ right) = trimEnd cs := by
  rw [trimEnd, trimEnd, List.reverse_append, trimStart_append h.reverse]

theorem trimEnd_eq_self {cs : List Char} (h : ∀ c, cs.getLast? = some c → isBlank c = false) :
    trimEnd cs = cs := by
  have first : ∀ c, cs.reverse.head? = some c → isBlank c = false := by
    simpa only [List.head?_reverse] using h
  rw [trimEnd, trimStart_eq_self first, List.reverse_reverse]

theorem exists_trimStart (cs : List Char) : ∃ left, cs = left ++ trimStart cs ∧ AllBlank left :=
  ⟨cs.takeWhile isBlank, List.takeWhile_append_dropWhile.symm,
    List.all_eq_true.mp List.all_takeWhile⟩

theorem isBlank_head?_trimStart {cs : List Char} (c : Char) (h : (trimStart cs).head? = some c) :
    isBlank c = false := by
  have stopped := List.head?_dropWhile_not isBlank cs
  rw [trimStart] at h
  rwa [h] at stopped

theorem exists_trimEnd (cs : List Char) : ∃ right, cs = trimEnd cs ++ right ∧ AllBlank right := by
  obtain ⟨left, parts, blank⟩ := exists_trimStart cs.reverse
  refine ⟨left.reverse, ?_, blank.reverse⟩
  rw [trimEnd, ← List.reverse_append, ← parts, List.reverse_reverse]

/-- There is one way to take the white space off a line. -/
theorem Trimmed.trim_eq {line name : List Char} (h : Trimmed line name) : trim line = name := by
  obtain ⟨⟨left, right, rfl, before, after⟩, first, last⟩ := h
  rw [trim, List.append_assoc, trimStart_append before]
  cases name with
  | nil =>
    have nothing : trimStart (right ++ []) = trimStart [] := trimStart_append after
    rw [List.append_nil] at nothing
    rw [List.nil_append, nothing]
    rfl
  | cons c rest =>
    have first : ∀ d, (c :: rest ++ right).head? = some d → isBlank d = false := first
    rw [trimStart_eq_self first, trimEnd_append after, trimEnd_eq_self last]

theorem trimmed_trim (line : List Char) : Trimmed line (trim line) := by
  obtain ⟨left, start, before⟩ := exists_trimStart line
  obtain ⟨right, parts, after⟩ := exists_trimEnd (trimStart line)
  refine ⟨⟨left, right, ?_, before, after⟩, ?_, ?_⟩
  · rw [List.append_assoc, trim, ← parts, ← start]
  · intro c head
    have start : (trimStart line).head? = some c := by
      rw [parts, List.head?_append, ← trim, head]
      rfl
    exact isBlank_head?_trimStart c start
  · intro c last
    rw [trim, trimEnd, List.getLast?_reverse] at last
    exact isBlank_head?_trimStart c last

theorem trim_eq_iff {line name : List Char} : trim line = name ↔ Trimmed line name :=
  ⟨fun h => h ▸ trimmed_trim line, Trimmed.trim_eq⟩

theorem trim_append_left {left : List Char} (before : AllBlank left) (line : List Char) :
    trim (left ++ line) = trim line := by
  rw [trim, trimStart_append before, ← trim]

theorem trim_append_right {right : List Char} (line : List Char) (after : AllBlank right) :
    trim (line ++ right) = trim line := by
  obtain ⟨⟨left, rest, parts, before, within⟩, first, last⟩ := trimmed_trim line
  refine trim_eq_iff.mpr ⟨⟨left, rest ++ right, ?_, before, ?_⟩, first, last⟩
  · calc line ++ right
        = left ++ trim line ++ rest ++ right := by rw [← parts]
      _ = left ++ trim line ++ (rest ++ right) := List.append_assoc ..
  · exact allBlank_append.mpr ⟨within, after⟩

theorem trim_trim (line : List Char) : trim (trim line) = trim line := by
  obtain ⟨-, first, last⟩ := trimmed_trim line
  rw [trim, trimStart_eq_self first, trimEnd_eq_self last]

theorem mem_of_mem_trim {line : List Char} {c : Char} (h : c ∈ trim line) : c ∈ line := by
  obtain ⟨⟨left, right, parts, -, -⟩, -, -⟩ := trimmed_trim line
  rw [parts]
  exact List.mem_append_left _ (List.mem_append_right _ h)

end Concord.Text
