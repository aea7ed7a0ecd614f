import Concord.Liveness.Watchlist
import Concord.Time.Span
import Mathlib.Data.List.Induction

/-!
A watchlist in all its runs. How many more intervals a member may miss is what it may miss in all,
less the intervals since its last heartbeat, so it is reported after exactly as many.
-/

namespace Concord.Watchlist

/-- What a watchlist takes note of. -/
inductive Beat where
  /-- An interval begins. -/
  | tick (now : Instant)
  | heartbeat (member : MemberId)
deriving DecidableEq

def Beat.isTick : Beat → Bool
  | .tick _ => true
  | .heartbeat _ => false

/-- The number of ticks since the last heartbeat of a member, or since the start. -/
def silence (m : MemberId) (beats : List Beat) : Nat :=
  (beats.reverse.takeWhile (· ≠ .heartbeat m)).countP Beat.isTick

def meet (w : Watchlist) : Beat → Watchlist
  | .tick _ => w.tick.1
  | .heartbeat m => w.hear m

def run (w : Watchlist) (beats : List Beat) : Watchlist := beats.foldl meet w

/-- The members that are reported at a beat. -/
def verdict (w : Watchlist) : Beat → List MemberId
  | .tick _ => w.tick.2
  | .heartbeat _ => []

/-- Everyone that is reported in a run, in order. -/
def reports (w : Watchlist) : List Beat → List MemberId
  | [] => []
  | b :: rest => w.verdict b ++ (w.meet b).reports rest

theorem silence_tick (m : MemberId) (beats : List Beat) (now : Instant) :
    silence m (beats ++ [.tick now]) = silence m beats + 1 := by
  simp [silence, List.countP_cons, Beat.isTick]

theorem silence_heartbeat (m other : MemberId) (beats : List Beat) :
    silence m (beats ++ [.heartbeat other]) = if other = m then 0 else silence m beats := by
  by_cases same : other = m
  · simp [silence, same]
  · simp [silence, same, Beat.isTick]

theorem run_concat (w : Watchlist) (beats : List Beat) (b : Beat) :
    w.run (beats ++ [b]) = (w.run beats).meet b := by
  rw [run, List.foldl_append]
  rfl

theorem reports_append (w : Watchlist) (beats more : List Beat) :
    w.reports (beats ++ more) = w.reports beats ++ (w.run beats).reports more := by
  induction beats generalizing w with
  | nil => rfl
  | cons b rest ih =>
    rw [List.cons_append, reports, reports, ih, List.append_assoc]
    rfl

theorem reports_concat (w : Watchlist) (beats : List Beat) (b : Beat) :
    w.reports (beats ++ [b]) = w.reports beats ++ (w.run beats).verdict b := by
  rw [reports_append, reports, reports, List.append_nil]

/-- A heartbeat changes only how many intervals its member may still miss. -/
theorem get?_hear (w : Watchlist) (m other : MemberId) :
    (w.hear other).left.get? m =
      if other = m then (w.left.get? m).map fun _ => w.tolerance else w.left.get? m := by
  unfold hear
  by_cases watched : w.left.contains other = true
  · obtain ⟨n, found⟩ := Table.contains_iff.mp watched
    rw [if_pos watched, Table.get?_put]
    split
    · rename_i same
      rw [← same, found, Option.map_some]
    · rfl
  · rw [if_neg watched]
    split
    · rename_i same
      have absent : w.left.get? m = none := by
        refine Option.eq_none_iff_forall_ne_some.mpr fun n found => watched ?_
        exact Table.contains_iff.mpr ⟨n, same ▸ found⟩
      rw [absent, Option.map_none]
    · rfl

theorem keys_hear (w : Watchlist) (m : MemberId) : (w.hear m).left.keys = w.left.keys := by
  unfold hear
  split
  · rename_i watched
    exact Table.keys_put (Table.mem_keys_iff.mpr (Table.contains_iff.mp watched)) _
  · rfl

/-- A heartbeat of a member that is not watched changes nothing. -/
theorem hear_eq_self {w : Watchlist} {m : MemberId} (absent : m ∉ w.left.keys) : w.hear m = w := by
  refine if_neg fun watched => absent ?_
  exact Table.mem_keys_iff.mpr (Table.contains_iff.mp watched)

theorem mem_tick_snd {w : Watchlist} {m : MemberId} : m ∈ w.tick.2 ↔ w.left.get? m = some 0 := by
  simp only [tick, Table.mem_keys_iff, Table.get?_filter_eq_some, decide_eq_true_eq]
  constructor
  · rintro ⟨n, found, rfl⟩
    exact found
  · exact fun found => ⟨0, found, rfl⟩

/-- What is left after a tick was one more before it. -/
theorem get?_tick {w : Watchlist} {m : MemberId} {n : UInt32} :
    w.tick.1.left.get? m = some n ↔
      ∃ before, w.left.get? m = some before ∧ before.toNat = n.toNat + 1 := by
  have lowered (before : UInt32) : before ≠ 0 ∧ before - 1 = n ↔ before.toNat = n.toNat + 1 := by
    rw [ne_eq, ← UInt32.toNat_inj, ← UInt32.toNat_inj, UInt32.toNat_sub]
    have := before.toNat_lt
    have := n.toNat_lt
    simp only [UInt32.reduceToNat]
    omega
  simp only [tick, Table.get?_mapValues, Option.map_eq_some_iff, Table.get?_filter_eq_some,
    decide_eq_true_eq, and_assoc, lowered]

theorem keys_tick_sublist (w : Watchlist) : w.tick.1.left.keys.Sublist w.left.keys := by
  rw [tick, Table.keys_mapValues]
  exact Table.keys_filter_sublist _ _

/-- Where a watchlist of these members stands after some beats, with what it has reported. -/
structure Tracks (members : List MemberId) (tolerance : UInt32) (beats : List Beat)
    (reported : List MemberId) (w : Watchlist) : Prop where
  limit : w.tolerance = tolerance
  watched : w.left.keys = (Roll.ofList members).toList.filter (· ∉ reported)
  left : ∀ m n, w.left.get? m = some n → n.toNat + silence m beats = tolerance.toNat
  distinct : reported.Nodup

theorem tracks_start (members : List MemberId) (tolerance : UInt32) :
    Tracks members tolerance [] [] (start members tolerance) := by
  have keys : ((Roll.ofList members).toList.map fun m => (m, tolerance)).map Prod.fst =
      (Roll.ofList members).toList := by
    rw [List.map_map]
    exact List.map_id _
  have entries : (start members tolerance).left.entries =
      (Roll.ofList members).toList.map fun m => (m, tolerance) :=
    Table.entries_ofList (by rw [keys]; exact Roll.nodup_of_ascending (Roll.ofList members).ascending)
  refine ⟨rfl, ?_, fun m n found => ?_, .nil⟩
  · rw [Table.keys, entries, keys]
    exact (List.filter_eq_self.mpr fun m _ => by simp).symm
  · rw [← Table.mem_entries_iff, entries] at found
    obtain ⟨k, -, same⟩ := List.mem_map.mp found
    cases same
    rfl

namespace Tracks

variable {members : List MemberId} {tolerance : UInt32} {beats : List Beat}
  {reported : List MemberId} {w : Watchlist}

theorem mem_keys_iff (h : Tracks members tolerance beats reported w) {m : MemberId} :
    m ∈ w.left.keys ↔ m ∈ members ∧ m ∉ reported := by
  rw [h.watched, List.mem_filter, ← Roll.mem_iff, Roll.mem_ofList, decide_eq_true_eq]

theorem ascending (h : Tracks members tolerance beats reported w) :
    w.left.keys.Pairwise fun a b => Ranked.rank a < Ranked.rank b := by
  rw [h.watched]
  exact (Roll.ofList members).ascending.filter _

theorem ascending_tick (h : Tracks members tolerance beats reported w) :
    w.tick.2.Pairwise fun a b => Ranked.rank a < Ranked.rank b :=
  h.ascending.sublist (Table.keys_filter_sublist _ _)

theorem mem_tick_iff (h : Tracks members tolerance beats reported w) {m : MemberId} :
    m ∈ w.tick.2 ↔ m ∈ members ∧ m ∉ reported ∧ silence m beats = tolerance.toNat := by
  rw [mem_tick_snd, ← and_assoc, ← h.mem_keys_iff, Table.mem_keys_iff]
  constructor
  · intro found
    exact ⟨⟨0, found⟩, by simpa using h.left m 0 found⟩
  · rintro ⟨⟨n, found⟩, silent⟩
    have left := h.left m n found
    have none : n = 0 := UInt32.toNat.inj (by simp only [UInt32.reduceToNat]; omega)
    exact none ▸ found

theorem tick (h : Tracks members tolerance beats reported w) (now : Instant) :
    Tracks members tolerance (beats ++ [.tick now]) (reported ++ w.tick.2) w.tick.1 := by
  refine ⟨h.limit, ?_, fun m n found => ?_, ?_⟩
  · -- both lists are ascending and have the same members
    apply Roll.eq_of_ascending (h.ascending.sublist w.keys_tick_sublist)
      ((Roll.ofList members).ascending.filter _)
    intro m
    rw [List.mem_filter, ← Roll.mem_iff, Roll.mem_ofList, decide_eq_true_eq, List.mem_append,
      not_or, ← and_assoc, ← h.mem_keys_iff, mem_tick_snd, Table.mem_keys_iff, Table.mem_keys_iff]
    constructor
    · rintro ⟨n, found⟩
      obtain ⟨before, found, more⟩ := get?_tick.mp found
      refine ⟨⟨before, found⟩, fun spent => ?_⟩
      rw [spent] at found
      cases found
      simp at more
    · rintro ⟨⟨before, found⟩, left⟩
      have some : before.toNat ≠ 0 := fun none => left (by
        rw [found, UInt32.toNat.inj (b := 0) none])
      refine ⟨before - 1, get?_tick.mpr ⟨before, found, ?_⟩⟩
      have small := before.toNat_lt
      simp only [UInt32.toNat_sub, UInt32.reduceToNat]
      omega
  · obtain ⟨before, found, more⟩ := get?_tick.mp found
    have left := h.left m before found
    rw [silence_tick]
    omega
  · refine List.nodup_append.mpr ⟨h.distinct, ?_, fun a ha b hb same => ?_⟩
    · exact Roll.nodup_of_ascending h.ascending_tick
    · exact (h.mem_tick_iff.mp hb).2.1 (same ▸ ha)

theorem hear (h : Tracks members tolerance beats reported w) (other : MemberId) :
    Tracks members tolerance (beats ++ [.heartbeat other]) reported (w.hear other) := by
  have same : (w.hear other).tolerance = w.tolerance := by
    unfold Watchlist.hear
    split <;> rfl
  refine ⟨same.trans h.limit, (w.keys_hear other).trans h.watched, fun m n found => ?_,
    h.distinct⟩
  rw [get?_hear] at found
  rw [silence_heartbeat]
  split at found
  · rename_i here
    obtain ⟨-, -, rfl⟩ := Option.map_eq_some_iff.mp found
    rw [if_pos here, h.limit, Nat.add_zero]
  · rename_i there
    rw [if_neg there]
    exact h.left m n found

theorem meet (h : Tracks members tolerance beats reported w) (b : Beat) :
    Tracks members tolerance (beats ++ [b]) (reported ++ w.verdict b) (w.meet b) := by
  cases b with
  | tick now => exact h.tick now
  | heartbeat other =>
    rw [verdict, List.append_nil]
    exact h.hear other

end Tracks

/-- The induction is on the beats from the end, so that a silence ends with the last of them. -/
theorem tracks_run (members : List MemberId) (tolerance : UInt32) (beats : List Beat) :
    Tracks members tolerance beats ((start members tolerance).reports beats)
      ((start members tolerance).run beats) := by
  induction beats using List.reverseRecOn with
  | nil => exact tracks_start members tolerance
  | append_singleton beats b ih =>
    rw [reports_concat, run_concat]
    exact ih.meet b

end Concord.Watchlist
