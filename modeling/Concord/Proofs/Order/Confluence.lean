import Concord.Proofs.Order.Calls
import Concord.Proofs.Order.Stamp
import Mathlib.Data.List.Sort

/-!
Decisions that are adopted one after the other release the same messages in the same order as if all
of them had been known at once. So their order does not matter, as long as the messages wait and no
two entries tie.
-/

namespace Concord

namespace HoldBack

/-- An entry once these decisions are known. -/
def Entry.under (ds : List Decision) (e : Entry) : Entry :=
  match ds.find? (·.id = e.id) with
  | some d => e.settled d.stamp
  | none => e

theorem Entry.under_cases (ds : List Decision) (e : Entry) :
    (∃ d ∈ ds, d.id = e.id ∧ e.under ds = e.settled d.stamp) ∨
      (∀ d ∈ ds, d.id ≠ e.id) ∧ e.under ds = e := by
  unfold under
  cases found : ds.find? (·.id = e.id) with
  | none =>
    refine .inr ⟨fun d hd about => ?_, rfl⟩
    exact absurd (decide_eq_true about) (List.find?_eq_none.mp found d hd)
  | some d =>
    have about := List.find?_some found
    exact .inl ⟨d, List.mem_of_find?_eq_some found, of_decide_eq_true about, rfl⟩

theorem Entry.under_of_not_mem {ds : List Decision} {e : Entry} (other : ∀ d ∈ ds, d.id ≠ e.id) :
    e.under ds = e := by
  rcases e.under_cases ds with ⟨d, hd, about, -⟩ | ⟨-, same⟩
  · exact absurd about (other d hd)
  · exact same

theorem Entry.under_of_mem {ds : List Decision} (distinct : (ds.map Decision.id).Nodup)
    {d : Decision} (hd : d ∈ ds) {e : Entry} (about : d.id = e.id) :
    e.under ds = e.settled d.stamp := by
  rcases e.under_cases ds with ⟨f, hf, about', same⟩ | ⟨other, -⟩
  · rw [same, List.inj_on_of_nodup_map distinct hf hd (about'.trans about.symm)]
  · exact absurd about (other d hd)

/-- Of distinct decisions, the first one may be applied before the others. -/
theorem Entry.under_cons {d : Decision} {rest : List Decision}
    (distinct : ((d :: rest).map Decision.id).Nodup) (e : Entry) :
    e.under (d :: rest) = (if e.id = d.id then e.settled d.stamp else e).under rest := by
  obtain ⟨new, others⟩ := List.nodup_cons.mp distinct
  by_cases here : e.id = d.id
  · have absent : ∀ f ∈ rest, f.id ≠ (e.settled d.stamp).id := by
      intro f hf same
      exact new (here ▸ same ▸ List.mem_map_of_mem hf)
    rw [if_pos here, under_of_mem distinct List.mem_cons_self here.symm, under_of_not_mem absent]
  · rw [if_neg here, under, List.find?_cons_of_neg (by simpa using Ne.symm here), under]

theorem Entry.under_perm {ds es : List Decision} (distinct : (ds.map Decision.id).Nodup)
    (same : ds.Perm es) (e : Entry) : e.under ds = e.under es := by
  rcases e.under_cases ds with ⟨d, hd, about, settled⟩ | ⟨other, untouched⟩
  · have distinct' := (same.map Decision.id).nodup_iff.mp distinct
    rw [settled, under_of_mem distinct' (same.mem_iff.mp hd) about]
  · rw [untouched, under_of_not_mem fun d hd => other d (same.mem_iff.mpr hd)]

/-- Any two entries stand in one order only. -/
def Untied (l : List Entry) : Prop :=
  ∀ x ∈ l, ∀ y ∈ l, x.precedes y = false → y.precedes x = false → x = y

theorem arrange_eq_of_perm {l k : List Entry} (untied : Untied l) (arranged : Arranged k)
    (same : k.Perm l) : arrange l = k := by
  refine List.Perm.eq_of_pairwise ?_ (arranged_arrange l) arranged
    ((arrange_perm l).trans same.symm)
  intro x y hx hy later earlier
  exact untied x ((arrange_perm l).mem_iff.mp hx) y (same.mem_iff.mp hy) earlier later

/-- A release in two portions, the second one of what the first one keeps. -/
theorem release_split {q : HoldBack} {l k : List Entry} (split : arrange l = q.freed ++ arrange k) :
    HoldBack.release ⟨q.waiting, l⟩ =
      ((HoldBack.release ⟨q.release.1.waiting, k⟩).1,
        q.release.2 ++ (HoldBack.release ⟨q.release.1.waiting, k⟩).2) := by
  have final : ∀ e ∈ q.freed, e.final = true := fun e he => final_of_mem_freed he
  have freed (w w' : List MessageId) : freed ⟨w, l⟩ = q.freed ++ HoldBack.freed ⟨w', k⟩ := by
    rw [HoldBack.freed, split]
    exact List.takeWhile_append_of_pos final
  have kept (w w' : List MessageId) : kept ⟨w, l⟩ = HoldBack.kept ⟨w', k⟩ := by
    rw [HoldBack.kept, split]
    exact List.dropWhile_append_of_pos final
  have gone (first later : List MessageId) :
      q.waiting.filter (· ∉ first ++ later) = (q.waiting.filter (· ∉ first)).filter (· ∉ later) := by
    rw [List.filter_filter]
    refine List.filter_congr fun id _ => ?_
    simp [Bool.and_comm]
  rw [release_eq, release_eq, release_eq, freed _ q.release.1.waiting, kept _ q.release.1.waiting]
  simp only [List.map_append, gone]
  rfl

/-- Adopts decisions one after the other. -/
def adoptAll (q : HoldBack) : List Decision → HoldBack × List Message
  | [] => (q, [])
  | d :: rest =>
    let (q, released) := q.adopt d
    let (q, more) := q.adoptAll rest
    (q, released ++ more)

theorem adoptAll_cons (q : HoldBack) (d : Decision) (rest : List Decision) : q.adoptAll (d :: rest) =
    (((q.adopt d).1.adoptAll rest).1, (q.adopt d).2 ++ ((q.adopt d).1.adoptAll rest).2) := rfl

/-- A queue that waits for these decisions: their messages are open, none gets a number below its
own, and they leave no tie. -/
structure Awaits (q : HoldBack) (ds : List Decision) : Prop where
  distinct : (ds.map Decision.id).Nodup
  provisional : ∀ d ∈ ds, ∃ e ∈ q.entries,
    e.id = d.id ∧ e.final = false ∧ e.stamp.number ≤ d.stamp.number
  untied : Untied (q.entries.map (Entry.under ds))

theorem Awaits.perm {q : HoldBack} {ds es : List Decision} (h : q.Awaits ds) (same : ds.Perm es) :
    q.Awaits es where
  distinct := (same.map Decision.id).nodup_iff.mp h.distinct
  provisional d hd := h.provisional d (same.mem_iff.mpr hd)
  untied := by
    rw [← funext (Entry.under_perm h.distinct same)]
    exact h.untied

section Adopt

variable {q : HoldBack} {d : Decision} {rest : List Decision}

/-- The queue with the entry of the first decision settled. -/
theorem Awaits.map_settle (h : q.Awaits (d :: rest)) (sound : q.Sound) :
    (q.settle d.id d.stamp).1.entries.map (Entry.under rest) =
      q.entries.map (Entry.under (d :: rest)) := by
  rw [settle_eq sound, List.map_map]
  exact List.map_congr_left fun e _ => (Entry.under_cons h.distinct e).symm

/-- The entry that a later decision is about is kept as it is. -/
theorem Awaits.kept (h : q.Awaits (d :: rest)) (sound : q.Sound) {f : Decision} (hf : f ∈ rest) :
    ∃ e ∈ (q.settle d.id d.stamp).1.kept,
      e.id = f.id ∧ e.final = false ∧ e.stamp.number ≤ f.stamp.number := by
  obtain ⟨e, he, about, provisional, le⟩ := h.provisional f (List.mem_cons_of_mem d hf)
  have other : e.id ≠ d.id := fun same =>
    (List.nodup_cons.mp h.distinct).1 (same ▸ about ▸ List.mem_map_of_mem hf)
  have settled := (mem_settle (s := d.stamp) sound).mpr (.inl ⟨he, other⟩)
  refine ⟨e, (mem_entries_iff.mp settled).resolve_left fun freed => ?_, about, provisional, le⟩
  cases provisional.symm.trans (final_of_mem_freed freed)

theorem Awaits.waits (h : q.Awaits (d :: rest)) (sound : q.Sound) : d.id ∈ q.waiting := by
  obtain ⟨e, he, about, -, -⟩ := h.provisional d List.mem_cons_self
  exact sound.mem_waiting.mpr ⟨e, he, about⟩

/-- Adopting the first decision leaves a queue that waits for the others. -/
theorem Awaits.next (h : q.Awaits (d :: rest)) (sound : q.Sound) :
    (q.settle d.id d.stamp).1.release.1.Awaits rest where
  distinct := (List.nodup_cons.mp h.distinct).2
  provisional f hf := h.kept sound hf
  untied := by
    have within : ∀ x ∈ (q.settle d.id d.stamp).1.kept.map (Entry.under rest),
        x ∈ q.entries.map (Entry.under (d :: rest)) := by
      rw [← h.map_settle sound]
      intro x hx
      obtain ⟨e, kept, rfl⟩ := List.mem_map.mp hx
      exact List.mem_map_of_mem (mem_entries_iff.mpr (.inr kept))
    exact fun x hx y hy => h.untied x (within x hx) y (within y hy)

/-- The later decisions do not move anything before what the first one frees. -/
theorem Awaits.arrange_eq (h : q.Awaits (d :: rest)) (sound : q.Sound) :
    arrange (q.entries.map (Entry.under (d :: rest))) =
      (q.settle d.id d.stamp).1.freed ++
        arrange ((q.settle d.id d.stamp).1.kept.map (Entry.under rest)) := by
  have sound' := sound_settle sound d.id d.stamp
  have keeps := fun f (hf : f ∈ rest) => h.kept sound hf
  have all := h.map_settle sound
  have perm := (q.settle d.id d.stamp).1.freed_append_kept_perm
  generalize (q.settle d.id d.stamp).1 = p at *
  -- none of the later decisions is about an entry that is freed
  have untouched : p.freed.map (Entry.under rest) = p.freed := by
    refine (List.map_congr_left fun e he => ?_).trans (List.map_id' _)
    refine Entry.under_of_not_mem fun f hf about => ?_
    obtain ⟨x, kept, same, -⟩ := keeps f hf
    exact (freed_distinct sound').2 e he x kept (about.symm.trans same.symm)
  apply arrange_eq_of_perm h.untied
  · refine List.pairwise_append.mpr ⟨p.arranged_freed, arranged_arrange _, fun x hx y hy => ?_⟩
    obtain ⟨z, kept, rfl⟩ := List.mem_map.mp ((arrange_perm _).mem_iff.mp hy)
    have behind := kept_behind_freed hx kept
    rcases z.under_cases rest with ⟨f, hf, about, settled⟩ | ⟨-, same⟩
    · obtain ⟨e, kept', same, provisional, le⟩ := keeps f hf
      obtain rfl : e = z := sound'.eq_of_id_eq (mem_entries_iff.mpr (.inr kept'))
        (mem_entries_iff.mpr (.inr kept)) (same.trans about)
      have final := final_of_mem_freed hx
      have later := (Entry.notBefore_of_not_precedes final behind).settled (t := f.stamp)
        (fun _ => le) fun final' => by cases provisional.symm.trans final'
      rw [settled, Entry.precedes_of_final rfl final]
      exact (Entry.notBefore_final rfl).mp later
    · rwa [same]
  · rw [← all, ← untouched]
    refine ((arrange_perm _).append_left _).trans ?_
    rw [← List.map_append]
    exact perm.map _

end Adopt

/-- One after the other or all at once. -/
theorem adoptAll_eq_release {q : HoldBack} (sound : q.Sound) (arranged : Arranged q.entries)
    (headOpen : q.HeadOpen) {ds : List Decision} (awaits : q.Awaits ds) :
    q.adoptAll ds = HoldBack.release ⟨q.waiting, q.entries.map (Entry.under ds)⟩ := by
  induction ds generalizing q with
  | nil =>
    have untouched : q.entries.map (Entry.under []) = q.entries := List.map_id' _
    rw [untouched]
    exact (release_eq_self arranged headOpen).symm
  | cons d rest ih =>
    have first : q.adopt d = (q.settle d.id d.stamp).1.release := if_pos (awaits.waits sound)
    have later := ih (first ▸ sound_adopt sound d) (first ▸ arranged_adopt arranged d)
      (first ▸ headOpen_adopt headOpen d) (awaits.next sound)
    have waiting : (q.settle d.id d.stamp).1.waiting = q.waiting := by rw [settle_eq sound]
    rw [adoptAll_cons, first, later, ← waiting]
    exact (release_split (awaits.arrange_eq sound)).symm

theorem adoptAll_perm {q : HoldBack} (sound : q.Sound) (arranged : Arranged q.entries)
    (headOpen : q.HeadOpen) {ds es : List Decision} (awaits : q.Awaits ds) (same : ds.Perm es) :
    q.adoptAll ds = q.adoptAll es := by
  rw [adoptAll_eq_release sound arranged headOpen awaits,
    adoptAll_eq_release sound arranged headOpen (awaits.perm same),
    funext (Entry.under_perm awaits.distinct same)]

end HoldBack

namespace Agreement

attribute [ext] Agreement

variable {a b : Agreement} {ds es : List Decision}

/-- What was delivered is recorded in the answers and in the numbers seen, whatever else changes. -/
theorem recordAll_congr (answers : a.answers = b.answers) (seen : a.seen = b.seen)
    (ms : List Message) : (a.recordAll ms).answers = (b.recordAll ms).answers ∧
      (a.recordAll ms).seen = (b.recordAll ms).seen := by
  unfold recordAll
  induction ms generalizing a b with
  | nil => exact ⟨answers, seen⟩
  | cons m rest ih =>
    refine ih ?_ ?_
    · rw [recordDelivery, recordDelivery, answers]
    · rw [recordDelivery, recordDelivery, seen]

theorem adoptAll_queue (coherent : a.Coherent) (ds : List Decision) :
    (a.adoptAll ds).1.queue = (a.queue.adoptAll ds).1 ∧
    (a.adoptAll ds).2 = (a.queue.adoptAll ds).2 := by
  induction ds generalizing a with
  | nil => exact ⟨rfl, rfl⟩
  | cons d rest ih =>
    obtain ⟨queue, delivered⟩ := ih (coherent.adopt d)
    rw [adopt_queue coherent.sound] at queue delivered
    rw [HoldBack.adoptAll_cons]
    exact ⟨queue, congrArg₂ _ (adopt_snd coherent.sound d) delivered⟩

theorem adoptAll_record (coherent : a.Coherent) (ds : List Decision) :
    (a.adoptAll ds).1.answers = (a.recordAll (a.adoptAll ds).2).answers ∧
    (a.adoptAll ds).1.seen = (a.recordAll (a.adoptAll ds).2).seen := by
  induction ds generalizing a with
  | nil => exact ⟨rfl, rfl⟩
  | cons d rest ih =>
    have first : (a.adopt d).1.answers = (a.recordAll (a.adopt d).2).answers ∧
        (a.adopt d).1.seen = (a.recordAll (a.adopt d).2).seen := by
      rw [adopt_eq coherent.sound]
      refine recordAll_congr ?_ ?_ (a.queue.adopt d).2 <;> rfl
    obtain ⟨answers, seen⟩ := ih (coherent.adopt d)
    obtain ⟨answers', seen'⟩ :=
      recordAll_congr first.1 first.2 ((a.adopt d).1.adoptAll rest).2
    have whole : (a.recordAll (a.adopt d).2).recordAll ((a.adopt d).1.adoptAll rest).2 =
        a.recordAll (a.adoptAll (d :: rest)).2 := (List.foldl_append ..).symm
    rw [← whole]
    exact ⟨answers.trans answers', seen.trans seen'⟩

theorem max_le {n k m : UInt32} (hn : n ≤ m) (hk : k ≤ m) : max n k ≤ m := by
  change (if n ≤ k then k else n) ≤ m
  split <;> assumption

/-- The greatest number does not depend on which number came last. -/
theorem max_right_comm (n k m : UInt32) : max (max n k) m = max (max n m) k := by
  have le (n k m : UInt32) : max (max n k) m ≤ max (max n m) k := by
    obtain ⟨outer, hk⟩ := le_max (max n m) k
    obtain ⟨hn, hm⟩ := le_max n m
    exact max_le (max_le (UInt32.le_trans hn outer) hk) (UInt32.le_trans hm outer)
  exact UInt32.le_antisymm (le n k m) (le n m k)

theorem adoptAll_perm (coherent : a.Coherent) (awaits : a.queue.Awaits ds) (same : ds.Perm es) :
    a.adoptAll ds = a.adoptAll es := by
  have queues := HoldBack.adoptAll_perm coherent.sound coherent.arranged coherent.headOpen awaits same
  obtain ⟨queue, delivered⟩ := adoptAll_queue coherent ds
  obtain ⟨queue', delivered'⟩ := adoptAll_queue coherent es
  obtain ⟨answers, seen⟩ := adoptAll_record coherent ds
  obtain ⟨answers', seen'⟩ := adoptAll_record coherent es
  obtain ⟨self, live, created, ballots⟩ := a.adoptAll_frame ds
  obtain ⟨self', live', created', ballots'⟩ := a.adoptAll_frame es
  have log : (a.adoptAll ds).2 = (a.adoptAll es).2 := by rw [delivered, delivered', queues]
  refine Prod.ext (Agreement.ext ?_ ?_ ?_ ?_ ?_ ?_ ?_ ?_) log
  · rw [self, self']
  · rw [live, live']
  · rw [created, created']
  · rw [adoptAll_latest, adoptAll_latest]
    exact same.foldl_eq' (fun x _ y _ n => max_right_comm n _ _) a.latest
  · rw [answers, answers', log]
  · rw [seen, seen', log]
  · rw [ballots, ballots']
  · rw [queue, queue', queues]

/-- Decisions may be taken in two portions. -/
theorem conclude_append (a : Agreement) (ds es : List Decision) : a.conclude (ds ++ es) =
    (((a.conclude ds).1.conclude es).1, (a.conclude ds).2 ++ ((a.conclude ds).1.conclude es).2) := by
  have closes : a.closeAll (ds ++ es) = (a.closeAll ds).closeAll es := List.foldl_append ..
  have past := adoptAll_past (fun b d => adopt_closeAll es b d) (a.closeAll ds) ds
  rw [conclude, closes, adoptAll_append, past]
  rfl

theorem closeAll_without (a : Agreement) (other : MemberId) (ds : List Decision) :
    (a.without other).closeAll ds = (a.closeAll ds).without other := by
  unfold closeAll
  induction ds generalizing a with
  | nil => rfl
  | cons d rest ih => exact ih (a.closed d.id)

/-- Whom a member waits for makes no difference to decisions that are taken. -/
theorem conclude_without (a : Agreement) (other : MemberId) (ds : List Decision) :
    (a.without other).conclude ds = ((a.conclude ds).1.without other, (a.conclude ds).2) := by
  rw [conclude, closeAll_without]
  exact adoptAll_past (fun b d => adopt_without b other d) (a.closeAll ds) ds

theorem closed_comm (a : Agreement) (id k : MessageId) :
    (a.closed id).closed k = (a.closed k).closed id := by
  simp only [closed, Table.erase, List.filter_filter, Bool.and_comm]

/-- The order in which decisions are taken does not matter to a queue that waits for them. -/
theorem conclude_perm (coherent : a.Coherent) (awaits : a.queue.Awaits ds) (same : ds.Perm es) :
    a.conclude ds = a.conclude es := by
  have closes : a.closeAll ds = a.closeAll es :=
    same.foldl_eq' (fun d _ e _ b => b.closed_comm d.id e.id) a
  have waits : (a.closeAll ds).queue.Awaits ds := by
    rw [closeAll_eq]
    exact awaits
  rw [conclude, conclude, adoptAll_perm (coherent.closeAll ds) waits same, closes]

end Agreement

end Concord
