import Concord.Group.HostList
import Concord.Proofs.Group.Ranks
import Concord.Proofs.Text.Lines
import Mathlib.Data.List.Nodup
import Mathlib.Logic.Relation

/-!
A list of hosts stands for the names in it by their first appearances. Every member reads its own
copy of the list, and copies that differ in blank lines, in white space around names or in further
mentions of a name give the same group with the same ranks.
-/

namespace Concord.HostList

/-! ### First appearances -/

section FirstOccurrences

variable {α β : Type} [DecidableEq α] [DecidableEq β]

theorem firstOccurrences_filter (p : α → Bool) (l : List α) :
    firstOccurrences (l.filter p) = (firstOccurrences l).filter p := by
  induction l with
  | nil => rfl
  | cons a rest ih =>
    rw [firstOccurrences, List.filter_cons, List.filter_cons]
    split
    · rw [firstOccurrences, ih, List.filter_filter, List.filter_filter]
      simp only [Bool.and_comm]
    · rename_i dropped
      rw [ih, List.filter_filter]
      apply List.filter_congr
      intro x _
      by_cases same : x = a <;> simp_all

theorem firstOccurrences_eq_eraseDups (l : List α) : firstOccurrences l = l.eraseDups := by
  match l with
  | [] => rfl
  | a :: rest =>
    rw [firstOccurrences, ← firstOccurrences_filter, firstOccurrences_eq_eraseDups,
      List.eraseDups_cons]
    simp only [ne_eq, decide_not]
    rfl
termination_by l.length
decreasing_by exact Nat.lt_succ_of_le (List.length_filter_le ..)

theorem mem_firstOccurrences {l : List α} {a : α} : a ∈ firstOccurrences l ↔ a ∈ l := by
  rw [firstOccurrences_eq_eraseDups, List.mem_eraseDups]

theorem firstOccurrences_map {f : α → β} (inj : ∀ a b, f a = f b → a = b) (l : List α) :
    firstOccurrences (l.map f) = (firstOccurrences l).map f := by
  induction l with
  | nil => rfl
  | cons a rest ih =>
    rw [List.map_cons, firstOccurrences, firstOccurrences, ih, List.filter_map, List.map_cons]
    congr 2
    apply List.filter_congr
    intro x _
    have same : f x = f a ↔ x = a := ⟨inj x a, congrArg f⟩
    simp only [Function.comp_apply, ne_eq, same]

/-- What is mentioned before is not mentioned first. -/
theorem firstOccurrences_skip {l k : List α} (again : ∀ a ∈ k, a ∈ l) (rest : List α) :
    firstOccurrences (l ++ (k ++ rest)) = firstOccurrences (l ++ rest) := by
  have nothing : k.removeAll l = [] := by
    apply List.filter_eq_nil_iff.mpr
    intro a within
    simp [again a within]
  simp only [firstOccurrences_eq_eraseDups, List.eraseDups_append]
  rw [List.removeAll, List.filter_append, ← List.removeAll, nothing, List.nil_append,
    ← List.removeAll]

theorem pairwise_firstOccurrences (l : List α) :
    (firstOccurrences l).Pairwise fun a b => l.idxOf a < l.idxOf b := by
  induction l with
  | nil => exact .nil
  | cons c rest ih =>
    have later {a : α} (other : a ≠ c) : (c :: rest).idxOf a = rest.idxOf a + 1 := by
      rw [List.idxOf_cons, beq_eq_false_iff_ne.mpr other.symm, cond_false]
    refine List.pairwise_cons.mpr ⟨?_, ?_⟩
    · intro a within
      have other : a ≠ c := of_decide_eq_true (List.mem_filter.mp within).2
      rw [List.idxOf_cons_self, later other]
      exact Nat.succ_pos _
    · refine (ih.filter _).imp_of_mem fun {a b} ha hb lt => ?_
      have first : a ≠ c := of_decide_eq_true (List.mem_filter.mp ha).2
      have second : b ≠ c := of_decide_eq_true (List.mem_filter.mp hb).2
      rw [later first, later second]
      exact Nat.succ_lt_succ lt

theorem nodup_of_places {l names : List α}
    (ordered : names.Pairwise fun a b => l.idxOf a < l.idxOf b) : names.Nodup := by
  refine ordered.imp fun {a b} lt same => ?_
  rw [same] at lt
  exact Nat.lt_irrefl _ lt

theorem nodup_firstOccurrences (l : List α) : (firstOccurrences l).Nodup :=
  nodup_of_places (pairwise_firstOccurrences l)

/-- The first mention of an entry comes after as many first mentions as there are different entries
before it. -/
theorem idxOf_firstOccurrences {l : List α} {a : α} (h : a ∈ l) :
    (firstOccurrences l).idxOf a = (l.take (l.idxOf a)).eraseDups.length := by
  obtain ⟨before, after, rfl, new⟩ := List.eq_append_cons_of_mem h
  have place : (before ++ a :: after).idxOf a = before.length := by
    rw [List.idxOf_append, if_neg new, List.idxOf_cons_self, Nat.zero_add]
  have first : a ∉ before.eraseDups := fun within => new (List.mem_eraseDups.mp within)
  have kept : (a :: after).removeAll before = a :: after.removeAll before := by
    rw [List.removeAll, List.filter_cons_of_pos (by simpa using new), ← List.removeAll]
  rw [place, List.take_left, firstOccurrences_eq_eraseDups, List.eraseDups_append, kept,
    List.eraseDups_cons, List.idxOf_append, if_neg first, List.idxOf_cons_self, Nat.zero_add]

end FirstOccurrences

/-- The different entries of a list, in the order of their first appearances. -/
structure FirstAppearances (entries names : List String) : Prop where
  ordered : names.Pairwise fun a b => entries.idxOf a < entries.idxOf b
  same : ∀ n, n ∈ names ↔ n ∈ entries

theorem firstAppearances_firstOccurrences (entries : List String) :
    FirstAppearances entries (firstOccurrences entries) :=
  ⟨pairwise_firstOccurrences entries, fun _ => mem_firstOccurrences⟩

/-- Nothing but the order of first appearances decides the order. -/
theorem firstAppearances_iff {entries names : List String} :
    FirstAppearances entries names ↔ names = firstOccurrences entries := by
  constructor
  · intro h
    obtain ⟨ordered, same⟩ := firstAppearances_firstOccurrences entries
    have perm : names.Perm (firstOccurrences entries) :=
      (List.perm_ext_iff_of_nodup (nodup_of_places h.ordered) (nodup_of_places ordered)).mpr
        fun n => (h.same n).trans (same n).symm
    refine perm.eq_of_pairwise ?_ h.ordered ordered
    intro a b _ _ before after
    exact absurd before (Nat.lt_asymm after)
  · rintro rfl
    exact firstAppearances_firstOccurrences entries

/-! ### The names in a text -/

/-- The names that lines hold, with every repetition. -/
inductive Entries : List (List Char) → List String → Prop where
  | none : Entries [] []
  | blank {line : List Char} {lines : List (List Char)} {entries : List String}
      (nothing : Text.Trimmed line []) (more : Entries lines entries) :
      Entries (line :: lines) entries
  | name {line : List Char} {lines : List (List Char)} {name : String} {entries : List String}
      (trimmed : Text.Trimmed line name.toList) (some : name ≠ "") (more : Entries lines entries) :
      Entries (line :: lines) (name :: entries)

/-- The text lists these names, in this order and with these repetitions. -/
def Lists (content : String) (entries : List String) : Prop :=
  ∃ lines, Text.Lines content.toList lines ∧ Entries lines entries

theorem lines_of_not_mem {line : List Char} (one : '\n' ∉ line) :
    lines line = [Text.trim line].filter (· ≠ []) := by
  rw [lines, Text.cutAt_of_not_mem one]
  rfl

theorem lines_append_cons (before after : List Char) :
    lines (before ++ '\n' :: after) = lines before ++ lines after := by
  rw [lines, Text.cutAt_append_cons, List.map_append, List.filter_append]
  rfl

theorem not_mem_append_singleton {line : List Char} {c : Char} (one : '\n' ∉ line) (h : c ≠ '\n') :
    '\n' ∉ line ++ [c] := by
  rw [List.mem_append, List.mem_singleton]
  exact not_or.mpr ⟨one, h.symm⟩

theorem lines_of_lines {content : List Char} {ls : List (List Char)} (h : Text.Lines content ls) :
    lines content = (ls.map Text.trim).filter (· ≠ []) := by
  induction h with
  | none => rfl
  | last _ one => exact lines_of_not_mem one
  | feed one _ _ ih =>
    rw [lines_append_cons, lines_of_not_mem one, ih, ← List.filter_append]
    rfl
  | @returnFeed line rest ls one _ ih =>
    have one' : '\n' ∉ line ++ ['\r'] := not_mem_append_singleton one (by simp)
    have trimmed : Text.trim (line ++ ['\r']) = Text.trim line :=
      Text.trim_append_right line (by decide)
    have lines : line ++ '\r' :: '\n' :: rest = (line ++ ['\r']) ++ '\n' :: rest := by
      rw [List.append_assoc]
      rfl
    rw [lines, lines_append_cons, lines_of_not_mem one', ih, trimmed, ← List.filter_append]
    rfl

theorem filter_of_entries {ls : List (List Char)} {entries : List String} (h : Entries ls entries) :
    (ls.map Text.trim).filter (· ≠ []) = entries.map String.toList := by
  induction h with
  | none => rfl
  | blank nothing _ ih => simpa [nothing.trim_eq] using ih
  | name trimmed some _ ih => simpa [trimmed.trim_eq, some] using ih

theorem exists_entries (ls : List (List Char)) : ∃ entries, Entries ls entries := by
  induction ls with
  | nil => exact ⟨[], .none⟩
  | cons line ls ih =>
    obtain ⟨entries, more⟩ := ih
    have trimmed := Text.trimmed_trim line
    by_cases nothing : Text.trim line = []
    · exact ⟨entries, .blank (nothing ▸ trimmed) more⟩
    · refine ⟨String.ofList (Text.trim line) :: entries, .name ?_ ?_ more⟩
      · rwa [String.toList_ofList]
      · exact fun empty => nothing (String.ofList_inj.mp empty)

theorem exists_lists (content : String) : ∃ entries, Lists content entries := by
  obtain ⟨ls, cut⟩ := Text.exists_lines content.toList
  obtain ⟨entries, named⟩ := exists_entries ls
  exact ⟨entries, ls, cut, named⟩

theorem Lists.lines_eq {content : String} {entries : List String} (h : Lists content entries) :
    lines content.toList = entries.map String.toList := by
  obtain ⟨ls, cut, named⟩ := h
  rw [lines_of_lines cut, filter_of_entries named]

theorem Lists.names_eq {content : String} {entries : List String} (h : Lists content entries) :
    names content = firstOccurrences entries := by
  have back : String.ofList ∘ String.toList = id := funext fun _ => String.ofList_toList
  rw [names, ← firstOccurrences_map fun _ _ => String.ofList_inj.mp, h.lines_eq, List.map_map, back,
    List.map_id]

/-! ### Edits that do not count -/

theorem lines_cons_blank {c : Char} (blank : Text.isBlank c = true) (cs : List Char) :
    lines (c :: cs) = lines cs := by
  have blank : Text.AllBlank [c] := List.forall_mem_singleton.mpr blank
  by_cases feed : c = '\n'
  · rw [feed]
    exact lines_append_cons [] cs
  · have one {line : List Char} (one : '\n' ∉ line) : lines (c :: line) = lines line := by
      have one' : '\n' ∉ c :: line := List.not_mem_cons_of_ne_of_not_mem (Ne.symm feed) one
      have trimmed : Text.trim (c :: line) = Text.trim line := Text.trim_append_left blank line
      rw [lines_of_not_mem one', lines_of_not_mem one, trimmed]
    induction cs using Text.lineByLine with
    | last line last => exact one last
    | feed line rest first _ =>
      rw [← List.cons_append, lines_append_cons, lines_append_cons, one first]

theorem lines_concat_blank {c : Char} (blank : Text.isBlank c = true) (cs : List Char) :
    lines (cs ++ [c]) = lines cs := by
  have blank : Text.AllBlank [c] := List.forall_mem_singleton.mpr blank
  by_cases feed : c = '\n'
  · rw [feed, lines_append_cons]
    exact List.append_nil _
  · induction cs using Text.lineByLine with
    | last line one =>
      rw [lines_of_not_mem (not_mem_append_singleton one feed), lines_of_not_mem one,
        Text.trim_append_right line blank]
    | feed line rest _ ih =>
      rw [List.append_assoc, List.cons_append, lines_append_cons, lines_append_cons, ih]

/-- White space around a piece of a text says nothing, even where it ends lines. -/
theorem lines_surrounded {left right : List Char} (before : Text.AllBlank left)
    (after : Text.AllBlank right) (cs : List Char) : lines (left ++ cs ++ right) = lines cs := by
  have within : lines (cs ++ right) = lines cs := by
    induction right generalizing cs with
    | nil => rw [List.append_nil]
    | cons c rest ih =>
      obtain ⟨first, rest⟩ := List.forall_mem_cons.mp after
      rw [List.append_cons, ih rest, lines_concat_blank first]
  rw [List.append_assoc]
  induction left with
  | nil => exact within
  | cons c rest ih =>
    obtain ⟨first, rest⟩ := List.forall_mem_cons.mp before
    rw [List.cons_append, lines_cons_blank first, ih rest]

theorem lines_of_trimmed {line name : List Char} (h : Text.Trimmed line name) :
    lines line = lines name := by
  obtain ⟨⟨left, right, rfl, before, after⟩, -, -⟩ := h
  exact lines_surrounded before after name

theorem lines_blank {blank : List Char} (h : Text.AllBlank blank) : lines blank = [] := by
  have nothing : lines (blank ++ [] ++ []) = [] := lines_surrounded h (List.forall_mem_nil _) []
  rwa [List.append_nil, List.append_nil] at nothing

theorem lines_intercalate (ls : List String) :
    lines ("\n".intercalate ls).toList = ls.flatMap fun line => lines line.toList := by
  have joined (ls : List (List Char)) : lines (['\n'].intercalate ls) = ls.flatMap lines := by
    induction ls with
    | nil => rfl
    | cons line ls ih =>
      cases ls with
      | nil => rw [List.intercalate_singleton, List.flatMap_singleton]
      | cons next ls =>
        rw [List.intercalate_cons_cons, List.append_assoc, List.singleton_append, lines_append_cons,
          ih, ← List.flatMap_cons]
  rw [String.toList_intercalate, ← List.flatMap_map]
  exact joined _

/-- The edits of a list of hosts that do not count. A text is given by the line feeds it is cut at:
its lines are joined by them, with an empty one behind a line feed at its end. White space may hold
line feeds of its own. -/
inductive Edit : String → String → Prop where
  | blankLine {before after : List String} {blank : String} (h : Text.AllBlank blank.toList) :
      Edit ("\n".intercalate (before ++ after)) ("\n".intercalate (before ++ blank :: after))
  | whiteSpace {before after : List String} {line left right : String}
      (hl : Text.AllBlank left.toList) (hr : Text.AllBlank right.toList) :
      Edit ("\n".intercalate (before ++ line :: after))
        ("\n".intercalate (before ++ (left ++ line ++ right) :: after))
  | repetition {before after : List String} {earlier line : String} {name : List Char}
      (listed : earlier ∈ before) (first : Text.Trimmed earlier.toList name)
      (again : Text.Trimmed line.toList name) :
      Edit ("\n".intercalate (before ++ after)) ("\n".intercalate (before ++ line :: after))
  | carriageReturn {before after : String} :
      Edit (before ++ "\n" ++ after) (before ++ "\r\n" ++ after)

/-- An edit leaves the first mentions where they are. -/
theorem Edit.names_eq {content other : String} (h : Edit content other) :
    names other = names content := by
  unfold names
  congr 1
  cases h with
  | @blankLine before after blank h =>
    simp only [lines_intercalate, List.flatMap_append, List.flatMap_cons, lines_blank h,
      List.nil_append]
  | @whiteSpace before after line left right hl hr =>
    simp only [lines_intercalate, List.flatMap_append, List.flatMap_cons, String.toList_append,
      lines_surrounded hl hr]
  | @repetition before after earlier line name listed first again =>
    have known : ∀ a ∈ lines line.toList, a ∈ before.flatMap fun line => lines line.toList := by
      intro a within
      rw [lines_of_trimmed again, ← lines_of_trimmed first] at within
      exact List.mem_flatMap.mpr ⟨earlier, listed, within⟩
    simp only [lines_intercalate, List.flatMap_append, List.flatMap_cons]
    exact firstOccurrences_skip known _
  | @carriageReturn before after =>
    have feed : (before ++ "\n" ++ after).toList = before.toList ++ '\n' :: after.toList := by
      simp
    have returned : (before ++ "\r\n" ++ after).toList =
        (before.toList ++ ['\r']) ++ '\n' :: after.toList := by simp
    rw [feed, returned, lines_append_cons, lines_append_cons, lines_concat_blank (by decide)]

/-! ### Reading -/

theorem parse_eq_ok_iff {content : String} {hosts : List String} :
    parse content = .ok hosts ↔ 2 ≤ hosts.length ∧ names content = hosts := by
  simp only [parse]
  split
  · rename_i few
    simp only [reduceCtorEq, false_iff, not_and]
    rintro enough rfl
    omega
  · rename_i enough
    rw [Except.ok.injEq]
    constructor
    · rintro rfl
      exact ⟨by omega, rfl⟩
    · exact And.right

theorem parse_of_names_eq {content other : String} (h : names other = names content) :
    parse other = parse content := by
  rw [parse, parse, h]

/-- A name is the only line of its own text. -/
theorem lines_of_mem_lines {content name : List Char} (h : name ∈ lines content) :
    lines name = [name] := by
  have alone {line : List Char} (one : '\n' ∉ line) (h : name ∈ lines line) :
      lines name = [name] := by
    rw [lines_of_not_mem one] at h
    obtain ⟨listed, some⟩ := List.mem_filter.mp h
    obtain rfl := List.mem_singleton.mp listed
    have one : '\n' ∉ Text.trim line := fun within => one (Text.mem_of_mem_trim within)
    rw [lines_of_not_mem one, Text.trim_trim]
    exact List.filter_cons_of_pos some
  induction content using Text.lineByLine with
  | last line one => exact alone one h
  | feed line rest one ih =>
    rw [lines_append_cons] at h
    exact (List.mem_append.mp h).elim (alone one) ih

theorem firstOccurrences_eq_self {α : Type} [DecidableEq α] {l : List α} (h : l.Nodup) :
    firstOccurrences l = l := by
  induction l with
  | nil => rfl
  | cons a rest ih =>
    obtain ⟨new, rest⟩ := List.nodup_cons.mp h
    rw [firstOccurrences, ih rest, List.filter_eq_self.mpr fun x within => ?_]
    exact decide_eq_true fun same => new (same ▸ within)

theorem names_intercalate_names (content : String) :
    names ("\n".intercalate (names content)) = names content := by
  have alone : ∀ name ∈ firstOccurrences (lines content.toList),
      lines (String.ofList name).toList = [name] := by
    intro name listed
    rw [String.toList_ofList]
    exact lines_of_mem_lines (mem_firstOccurrences.mp listed)
  rw [names, lines_intercalate, names, List.flatMap_map, List.flatMap_congr alone,
    List.flatMap_singleton', firstOccurrences_eq_self (nodup_firstOccurrences _)]

theorem two_le_length_iff {α : Type} {l : List α} (distinct : l.Nodup) :
    2 ≤ l.length ↔ ∃ a ∈ l, ∃ b ∈ l, a ≠ b := by
  constructor
  · intro enough
    have first := l.getElem_mem (show 0 < l.length by omega)
    have second := l.getElem_mem (show 1 < l.length by omega)
    refine ⟨_, first, _, second, fun same => ?_⟩
    exact absurd ((List.Nodup.getElem_inj_iff distinct).mp same) Nat.zero_ne_one
  · rintro ⟨a, ha, b, hb, other⟩
    match l with
    | [c] => exact absurd ((List.mem_singleton.mp ha).trans (List.mem_singleton.mp hb).symm) other
    | _ :: _ :: rest => exact Nat.le_add_left 2 rest.length

/-- One more than the number of different names before the first mention of a name. -/
def place (entries : List String) (name : String) : Nat :=
  (entries.take (entries.idxOf name)).eraseDups.length + 1

section Listed

variable {content : String} {entries : List String}

theorem Lists.parse_eq_ok_iff (listed : Lists content entries) {hosts : List String} :
    parse content = .ok hosts ↔ 2 ≤ hosts.length ∧ FirstAppearances entries hosts := by
  rw [HostList.parse_eq_ok_iff, listed.names_eq, firstAppearances_iff, eq_comm]

theorem Lists.parse_eq_error_iff (listed : Lists content entries) {e : HostListError} :
    parse content = .error e ↔
      ∃ few, FirstAppearances entries few ∧ few.length < 2 ∧ e = .tooFew few.length := by
  simp only [parse, listed.names_eq, firstAppearances_iff, exists_eq_left]
  split
  · rename_i few
    simp only [Except.error.injEq, few, true_and, eq_comm]
  · rename_i enough
    simp only [reduceCtorEq, enough, false_and]

theorem Lists.exists_parse_iff (listed : Lists content entries) :
    (∃ hosts, parse content = .ok hosts) ↔ ∃ a ∈ entries, ∃ b ∈ entries, a ≠ b := by
  have enough := two_le_length_iff (nodup_firstOccurrences entries)
  simp only [mem_firstOccurrences] at enough
  rw [← enough]
  constructor
  · rintro ⟨hosts, read⟩
    obtain ⟨length, first⟩ := listed.parse_eq_ok_iff.mp read
    rwa [← firstAppearances_iff.mp first]
  · intro length
    exact ⟨_, listed.parse_eq_ok_iff.mpr ⟨length, firstAppearances_firstOccurrences entries⟩⟩

theorem Lists.rank_of_parse (listed : Lists content entries) {hosts : List String}
    (read : parse content = .ok hosts) {lookup : String → Except String Host} {own : String}
    {port : UInt16} {g : Group} (resolved : Group.resolve lookup hosts own port = .ok g) :
    (own ∈ entries ∧ g.self.rank.toNat = place entries own) ∧
      ∀ m ∈ g.members, m.host ∈ entries ∧ m.id.rank.toNat = place entries m.host := by
  obtain rfl := firstAppearances_iff.mp (listed.parse_eq_ok_iff.mp read).2
  have placed {n : String} (h : n ∈ firstOccurrences entries) :
      n ∈ entries ∧ (firstOccurrences entries).idxOf n + 1 = place entries n := by
    have mentioned := mem_firstOccurrences.mp h
    exact ⟨mentioned, by rw [idxOf_firstOccurrences mentioned, place]⟩
  obtain ⟨⟨self, rank⟩, members⟩ := Group.rank_of_resolve (nodup_firstOccurrences entries) resolved
  constructor
  · rw [rank]
    exact placed self
  · intro m member
    obtain ⟨host, rank⟩ := members m member
    rw [rank]
    exact placed host

end Listed

theorem parse_intercalate {content : String} {hosts : List String}
    (read : parse content = .ok hosts) : parse ("\n".intercalate hosts) = .ok hosts := by
  obtain ⟨enough, rfl⟩ := parse_eq_ok_iff.mp read
  exact parse_eq_ok_iff.mpr ⟨enough, names_intercalate_names content⟩

theorem parse_of_edits {content other : String} (h : Relation.ReflTransGen Edit content other) :
    parse other = parse content := by
  induction h with
  | refl => rfl
  | tail _ edit ih => rw [parse_of_names_eq edit.names_eq, ih]

/-- A text, read as the names on its lines, gives a group if two of them differ: these names, each
once and without white space around it, in the order of their first mentions, so that the rank of
a member is settled by the different names before the first mention of its own. With fewer it is
refused for their number. The names, written one a line, give the same group again, and so does
every text that differs only in what does not count. -/
theorem parse_canonical (content : String) :
    (∃ entries, Lists content entries) ∧
    (∀ entries, Lists content entries →
      ((∃ hosts, parse content = .ok hosts) ↔ ∃ a ∈ entries, ∃ b ∈ entries, a ≠ b) ∧
      (∀ hosts, parse content = .ok hosts ↔ 2 ≤ hosts.length ∧ FirstAppearances entries hosts) ∧
      (∀ e, parse content = .error e ↔
        ∃ few, FirstAppearances entries few ∧ few.length < 2 ∧ e = .tooFew few.length) ∧
      ∀ hosts lookup own port g, parse content = .ok hosts →
        Group.resolve lookup hosts own port = .ok g →
          (own ∈ entries ∧ g.self.rank.toNat = place entries own) ∧
          ∀ m ∈ g.members, m.host ∈ entries ∧ m.id.rank.toNat = place entries m.host) ∧
    (∀ hosts, parse content = .ok hosts → parse ("\n".intercalate hosts) = .ok hosts) ∧
    ∀ other, Relation.ReflTransGen Edit content other → parse other = parse content := by
  refine ⟨exists_lists content, fun entries listed => ⟨?_, ?_, ?_, ?_⟩, ?_, ?_⟩
  · exact listed.exists_parse_iff
  · exact fun hosts => listed.parse_eq_ok_iff
  · exact fun e => listed.parse_eq_error_iff
  · exact fun hosts lookup own port g read resolved => listed.rank_of_parse read resolved
  · exact fun hosts read => parse_intercalate read
  · exact fun other edits => parse_of_edits edits

example : parse "b\n\n a \r\nb" = .ok ["b", "a"] := by decide

end Concord.HostList
