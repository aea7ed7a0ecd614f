import Concord.Group.Basic
import Concord.Proofs.Retry.Deeds

/-!
An outbox with and without the recipients outside the group. What is left of its parcels without
them is sent in the same rounds, and what is done to the outbox is done to what is left of it.
-/

namespace Concord

/-- The entries that pass a test. -/
def Roll.keep {α : Type} [Ranked α] (s : Roll α) (test : α → Bool) : Roll α :=
  ⟨s.toList.filter test, s.ascending.filter test⟩

theorem Roll.mem_keep {α : Type} [Ranked α] {s : Roll α} {test : α → Bool} {a : α} :
    a ∈ s.keep test ↔ a ∈ s ∧ test a = true := List.mem_filter

theorem Group.addressOf_eq_none {g : Group} {m : MemberId} (stranger : m ∉ g.ids) :
    g.addressOf m = none := by
  refine Option.map_eq_none_iff.mpr (List.find?_eq_none.mpr fun x hx same => stranger ?_)
  exact List.mem_map.mpr ⟨x, hx, of_decide_eq_true same⟩

variable {α : Type} {g : Group}

namespace Parcel

/-- The parcel for its recipients in the group. -/
def within (g : Group) (p : Parcel α) : Parcel α :=
  { p with waiting := p.waiting.keep fun m => decide (m ∈ g.ids) }

/-- Those of the parcels that are for someone in the group. -/
def allWithin (g : Group) (l : List (Parcel α)) : List (Parcel α) :=
  (l.map (within g)).filter fun p => !p.waiting.isEmpty

theorem mem_within {p : Parcel α} {m : MemberId} :
    m ∈ (p.within g).waiting ↔ m ∈ p.waiting ∧ m ∈ g.ids := by
  rw [within, Roll.mem_keep, decide_eq_true_eq]

theorem awaited_within {p : Parcel α} :
    (!(p.within g).waiting.isEmpty) = true ↔ ∃ m ∈ p.waiting, m ∈ g.ids := by
  simp only [Outbox.awaited_iff, mem_within]

theorem known_or_strangers (g : Group) (p : Parcel α) :
    (∃ m ∈ p.waiting, m ∈ g.ids) ∨ ∀ m ∈ p.waiting, m ∉ g.ids := by
  by_cases known : ∃ m ∈ p.waiting, m ∈ g.ids
  · exact .inl known
  · exact .inr fun m waits listed => known ⟨m, waits, listed⟩

theorem allWithin_cons_of_known {p : Parcel α} {l : List (Parcel α)}
    (known : ∃ m ∈ p.waiting, m ∈ g.ids) :
    allWithin g (p :: l) = p.within g :: allWithin g l :=
  List.filter_cons_of_pos (awaited_within.mpr known)

theorem allWithin_cons_of_strangers {p : Parcel α} {l : List (Parcel α)}
    (strangers : ∀ m ∈ p.waiting, m ∉ g.ids) : allWithin g (p :: l) = allWithin g l := by
  refine List.filter_cons_of_neg fun known => ?_
  obtain ⟨m, waits, listed⟩ := awaited_within.mp known
  exact strangers m waits listed

theorem allWithin_concat (l : List (Parcel α)) (p : Parcel α) :
    allWithin g (l ++ [p]) = allWithin g l ++ allWithin g [p] := by
  rw [allWithin, List.map_append, List.filter_append]
  rfl

theorem awaited_allWithin {l : List (Parcel α)} :
    ∀ x ∈ allWithin g l, ∃ member, member ∈ x.waiting :=
  fun _ hx => Outbox.awaited_iff.mp (List.mem_filter.mp hx).2

theorem mem_ids_of_mem_allWithin {l : List (Parcel α)} {p : Parcel α} (hp : p ∈ allWithin g l)
    {m : MemberId} (waits : m ∈ p.waiting) : m ∈ g.ids := by
  obtain ⟨x, -, rfl⟩ := List.mem_map.mp (List.mem_filter.mp hp).1
  exact (mem_within.mp waits).2

theorem within_erase (p : Parcel α) (m : MemberId) :
    within g { p with waiting := p.waiting.erase m } =
      { p.within g with waiting := (p.within g).waiting.erase m } := by
  refine congrArg (Parcel.mk p.item) (Roll.ext fun x => ?_)
  simp only [Roll.mem_keep, Roll.mem_erase, and_right_comm, within]

end Parcel

/-- The deed without its recipients outside the group. -/
def Deed.within (g : Group) : Deed α → Deed α
  | .put item recipients => .put item (recipients.filter fun m => m ∈ g.ids)
  | .acknowledge id member => .acknowledge id member
  | .forget member => .forget member

/-- Something is put for someone in the group. -/
def Deed.Reaches (g : Group) : Deed α → Prop
  | .put _ recipients => ∃ m ∈ recipients, m ∈ g.ids
  | _ => False

theorem Deed.reaches_of_feeds_within {d : Deed α} (feeds : (d.within g).feeds = true) :
    d.Reaches g := by
  cases d with
  | put item recipients =>
    have some : (recipients.filter fun m => m ∈ g.ids) ≠ [] := by
      simpa [within, Deed.feeds] using feeds
    obtain ⟨m, hm⟩ := List.exists_mem_of_ne_nil _ some
    obtain ⟨listed, known⟩ := List.mem_filter.mp hm
    exact ⟨m, listed, of_decide_eq_true known⟩
  | acknowledge | forget => cases feeds

theorem Deed.feeds_put (item : α) {recipients : List MemberId} (someone : ∃ m, m ∈ recipients) :
    feeds (.put item recipients) = true := by
  obtain ⟨m, listed⟩ := someone
  cases recipients with
  | nil => cases listed
  | cons => rfl

theorem Deed.Reaches.feeds {d : Deed α} (h : d.Reaches g) : d.feeds = true := by
  cases d with
  | put item recipients => exact feeds_put item (h.imp fun _ known => known.1)
  | acknowledge | forget => cases h

namespace Outbox

variable [Mail α] {o k : Outbox α}

theorem round_within (same : k.parcels = Parcel.allWithin g o.parcels) :
    k.round g.addressOf = o.round g.addressOf := by
  rw [round, round, same]
  generalize o.parcels = l
  induction l with
  | nil => rfl
  | cons p rest ih =>
    have addressed : (p.waiting.toList.filter fun m => decide (m ∈ g.ids)).filterMap g.addressOf =
        p.waiting.toList.filterMap g.addressOf := by
      rw [List.filterMap_filter]
      refine List.filterMap_congr fun m _ => ?_
      split
      · rfl
      · rename_i stranger
        exact (Group.addressOf_eq_none (mt decide_eq_true stranger)).symm
    rcases p.known_or_strangers g with known | strangers
    · rw [Parcel.allWithin_cons_of_known known, List.flatMap_cons, List.flatMap_cons, ih,
        ← addressed]
      rfl
    · have unsent : p.waiting.toList.filterMap g.addressOf = [] :=
        List.filterMap_eq_nil_iff.mpr fun m waits => Group.addressOf_eq_none (strangers m waits)
      rw [Parcel.allWithin_cons_of_strangers strangers, List.flatMap_cons, ih, unsent]
      rfl

theorem round_eq_nil_iff (same : k.parcels = Parcel.allWithin g o.parcels) :
    o.round g.addressOf = [] ↔ k.parcels = [] := by
  rw [← round_within same]
  constructor
  · refine parcels_eq_nil_of_round (same ▸ Parcel.awaited_allWithin) fun item member owes => ?_
    obtain ⟨p, hp, -, waits⟩ := owes
    rw [same] at hp
    exact Group.exists_addressOf (Parcel.mem_ids_of_mem_allWithin hp waits)
  · intro none
    rw [round, none]
    rfl

omit [Mail α] in
theorem put_within (same : k.parcels = Parcel.allWithin g o.parcels) (item : α)
    (recipients : List MemberId) :
    (k.put item (recipients.filter fun m => m ∈ g.ids)).parcels =
      Parcel.allWithin g (o.put item recipients).parcels := by
  obtain ⟨still, nobody⟩ | ⟨parcels, -⟩ := o.put_eq_or item recipients
  · have none : recipients = [] := List.eq_nil_iff_forall_not_mem.mpr nobody
    rw [still, none]
    exact same
  rw [parcels, Parcel.allWithin_concat, ← same]
  obtain ⟨still, nobody⟩ | ⟨parcels', m, waits⟩ :=
    k.put_eq_or item (recipients.filter fun m => m ∈ g.ids)
  · have strangers : ∀ m ∈ Roll.ofList recipients, m ∉ g.ids := fun m waits listed =>
      nobody m (List.mem_filter.mpr ⟨Roll.mem_ofList.mp waits, decide_eq_true listed⟩)
    rw [still, Parcel.allWithin_cons_of_strangers strangers]
    exact (List.append_nil _).symm
  · obtain ⟨waits, known⟩ := List.mem_filter.mp (Roll.mem_ofList.mp waits)
    rw [parcels', Parcel.allWithin_cons_of_known
      ⟨m, Roll.mem_ofList.mpr waits, of_decide_eq_true known⟩]
    refine congrArg (fun p => k.parcels ++ [Parcel.mk item p]) (Roll.ext fun x => ?_)
    rw [Roll.mem_ofList, List.mem_filter, Roll.mem_keep, Roll.mem_ofList]

omit [Mail α] in
theorem forget_within (same : k.parcels = Parcel.allWithin g o.parcels) (member : MemberId) :
    (k.forget member).1.parcels = Parcel.allWithin g (o.forget member).1.parcels := by
  simp only [forget, same, Parcel.allWithin, List.filter_map, List.map_map, List.filter_filter]
  refine congrArg₂ List.map ?_ (List.filter_congr fun p _ => ?_)
  · exact funext fun p => (Parcel.within_erase p member).symm
  · rw [Bool.eq_iff_iff]
    simp only [Function.comp_apply, Bool.and_eq_true, Roll.awaited_iff, Roll.mem_erase,
      Parcel.mem_within]
    constructor
    · rintro ⟨⟨m, ⟨waits, listed⟩, other⟩, -⟩
      exact ⟨⟨m, ⟨waits, other⟩, listed⟩, m, waits, other⟩
    · rintro ⟨⟨m, ⟨waits, other⟩, listed⟩, -⟩
      exact ⟨⟨m, ⟨waits, listed⟩, other⟩, m, waits, listed⟩

/-- Of the parcels about a message the first one is for strangers alone, and a later one for a
member. An acknowledgement of the member does not come past the first one. -/
def Hides (g : Group) (o : Outbox α) (id : MessageId) (member : MemberId) : Prop :=
  member ∈ g.ids ∧
    (∃ p ∈ o.parcels.find? fun p => Mail.about p.item = id, ∀ m ∈ p.waiting, m ∉ g.ids) ∧
    ∃ q ∈ o.parcels, Mail.about q.item = id ∧ member ∈ q.waiting

instance (o : Outbox α) (id : MessageId) (member : MemberId) : Decidable (o.Hides g id member) :=
  have (p : Parcel α) : Decidable (∀ m ∈ p.waiting, m ∉ g.ids) :=
    inferInstanceAs (Decidable (∀ m ∈ p.waiting.toList, m ∉ g.ids))
  inferInstanceAs (Decidable (_ ∧ _ ∧ _))

/-- One parcel about a message hides nothing. -/
theorem Sound.not_hides (h : o.Sound) (id : MessageId) (member : MemberId) :
    ¬ o.Hides g id member := by
  rintro ⟨listed, ⟨p, first, strangers⟩, q, hq, about, waits⟩
  rw [Option.mem_def] at first
  have hp := List.mem_of_find?_eq_some first
  have here : Mail.about p.item = id := by simpa using List.find?_some first
  have same : Mail.about p.item = Mail.about q.item := here.trans about.symm
  rw [← List.inj_on_of_nodup_map h.distinct hp hq same] at waits
  exact strangers member waits listed

theorem strike_eq_self {id : MessageId} {member : MemberId} {l : List (Parcel α)}
    (awaited : ∀ x ∈ l, ∃ m, m ∈ x.waiting)
    (untouched : ∀ x ∈ l, Mail.about x.item = id → member ∉ x.waiting) :
    (strike id member l).1 = l := by
  induction l with
  | nil => rfl
  | cons p rest ih =>
    obtain ⟨here, later⟩ := List.forall_mem_cons.mp awaited
    obtain ⟨first, others⟩ := List.forall_mem_cons.mp untouched
    rw [strike]
    split
    · rename_i about
      rw [Roll.erase_eq_self (first about)]
      have someone : ¬ p.waiting.isEmpty = true := by
        simpa using awaited_iff.mpr here
      exact if_neg someone
    · exact congrArg (p :: ·) (ih later others)

theorem strike_cons_of_about {id : MessageId} {p : Parcel α} (about : Mail.about p.item = id)
    (member : MemberId) (rest : List (Parcel α)) : (strike id member (p :: rest)).1 =
      if (p.waiting.erase member).isEmpty then rest
      else { p with waiting := p.waiting.erase member } :: rest := by
  rw [strike, if_pos about]

theorem strike_cons_of_other {id : MessageId} {p : Parcel α} (other : Mail.about p.item ≠ id)
    (member : MemberId) (rest : List (Parcel α)) :
    (strike id member (p :: rest)).1 = p :: (strike id member rest).1 := by
  rw [strike, if_neg other]

theorem strike_within {id : MessageId} {member : MemberId} {l : List (Parcel α)}
    (seen : member ∈ g.ids → ∀ p, l.find? (fun p => Mail.about p.item = id) = some p →
      (∀ m ∈ p.waiting, m ∉ g.ids) → ∀ q ∈ l, Mail.about q.item = id → member ∉ q.waiting) :
    (strike id member (Parcel.allWithin g l)).1 = Parcel.allWithin g (strike id member l).1 := by
  induction l with
  | nil => rfl
  | cons p rest ih =>
    by_cases about : Mail.about p.item = id
    · have left : Parcel.allWithin g (strike id member (p :: rest)).1 =
          Parcel.allWithin g ({ p with waiting := p.waiting.erase member } :: rest) := by
        rw [strike_cons_of_about about]
        split
        · rename_i nobody
          refine (Parcel.allWithin_cons_of_strangers fun m waits => ?_).symm
          rw [Roll.mem_iff, List.isEmpty_iff.mp nobody] at waits
          cases waits
        · rfl
      rw [left]
      rcases p.known_or_strangers g with known | strangers
      · rw [Parcel.allWithin_cons_of_known known, strike_cons_of_about (p := p.within g) about,
          Parcel.allWithin, Parcel.allWithin, List.map_cons, List.filter_cons, Parcel.within_erase]
        cases ((p.within g).waiting.erase member).isEmpty <;> rfl
      · rw [Parcel.allWithin_cons_of_strangers strangers, Parcel.allWithin_cons_of_strangers
          fun m waits => strangers m (Roll.mem_erase.mp waits).1]
        refine strike_eq_self Parcel.awaited_allWithin fun x hx same waits => ?_
        have listed := Parcel.mem_ids_of_mem_allWithin hx waits
        obtain ⟨q, hq, rfl⟩ := List.mem_map.mp (List.mem_filter.mp hx).1
        exact seen listed p (List.find?_cons_of_pos (decide_eq_true about)) strangers q
          (List.mem_cons_of_mem p hq) same (Parcel.mem_within.mp waits).1
    · have later := ih fun listed x first strangers q hq =>
        seen listed x ((List.find?_cons_of_neg (by simpa using about)).trans first) strangers q
          (List.mem_cons_of_mem p hq)
      rw [strike_cons_of_other about]
      rcases p.known_or_strangers g with known | strangers
      · rw [Parcel.allWithin_cons_of_known known, Parcel.allWithin_cons_of_known known,
          strike_cons_of_other (p := p.within g) about, later]
      · rw [Parcel.allWithin_cons_of_strangers strangers,
          Parcel.allWithin_cons_of_strangers strangers, later]

theorem acknowledge_within (same : k.parcels = Parcel.allWithin g o.parcels) {id : MessageId}
    {member : MemberId} (seen : ¬ o.Hides g id member) :
    (k.acknowledge id member).1.parcels =
      Parcel.allWithin g (o.acknowledge id member).1.parcels := by
  simp only [acknowledge, same]
  exact strike_within fun listed p first strangers q hq about waits =>
    seen ⟨listed, ⟨p, first, strangers⟩, q, hq, about, waits⟩

/-- What is not hidden from the deed is done to what is left of the outbox. -/
theorem perform_within (same : k.parcels = Parcel.allWithin g o.parcels) {d : Deed α}
    (seen : ∀ id member, d = .acknowledge id member → ¬ o.Hides g id member) :
    (k.perform (d.within g)).parcels = Parcel.allWithin g (o.perform d).parcels := by
  cases d with
  | put item recipients => exact put_within same item recipients
  | acknowledge id member => exact acknowledge_within same (seen id member rfl)
  | forget member => exact forget_within same member

theorem calls_le_perform (o : Outbox α) (d : Deed α) : o.calls ≤ (o.perform d).calls := by
  cases feeds : d.feeds with
  | true => exact (calls_of_feeds feeds).1
  | false => exact Nat.le_of_eq (calls_of_not_feeds feeds).1.symm

/-- Where something is left to send, both outboxes ask for a call, unless parcels for strangers
stand in the way. -/
theorem calls_within (same : k.parcels = Parcel.allWithin g o.parcels) {d : Deed α}
    (after : (k.perform (d.within g)).parcels = Parcel.allWithin g (o.perform d).parcels)
    (called : o.round g.addressOf ≠ [] → 0 < o.calls ∧ 0 < k.calls)
    (free : d.Reaches g → o.parcels ≠ [] → o.round g.addressOf = [] → 0 < o.calls)
    (some : (o.perform d).round g.addressOf ≠ []) :
    0 < (o.perform d).calls ∧ 0 < (k.perform (d.within g)).calls := by
  by_cases before : o.round g.addressOf = []
  · have empty := (round_eq_nil_iff same).mp before
    rw [Ne, round_eq_nil_iff after] at some
    have feeds : (d.within g).feeds = true := by
      cases idle : (d.within g).feeds with
      | true => rfl
      | false => exact absurd empty ((calls_of_not_feeds idle).2 some)
    have reaches := Deed.reaches_of_feeds_within feeds
    refine ⟨?_, (calls_of_feeds feeds).2 empty⟩
    by_cases nothing : o.parcels = []
    · exact (calls_of_feeds reaches.feeds).2 nothing
    · exact Nat.lt_of_lt_of_le (free reaches nothing before) (o.calls_le_perform d)
  · exact (called before).imp (Nat.lt_of_lt_of_le · (o.calls_le_perform d))
      (Nat.lt_of_lt_of_le · (k.calls_le_perform _))

end Outbox

end Concord
