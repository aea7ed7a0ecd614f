import Concord.Data.Table
import Concord.Retry.Outbox
import Mathlib.Data.List.Nodup

/-!
An outbox seen as a relation: which item is owed to which member. Putting an item owes it to its
recipients, an acknowledgement and a forgotten member take something off, and nothing else changes.
-/

namespace Concord

theorem Roll.awaited_iff {α : Type} [Ranked α] {s : Roll α} :
    (!s.isEmpty) = true ↔ ∃ a, a ∈ s := by
  rw [isEmpty, Bool.not_eq_true', List.isEmpty_eq_false_iff]
  exact ⟨List.exists_mem_of_ne_nil _, fun ⟨_, h⟩ => List.ne_nil_of_mem h⟩

namespace Outbox

variable {α : Type}

/-- The item is sent again until the member acknowledges it. -/
def Owes (o : Outbox α) (item : α) (member : MemberId) : Prop :=
  ∃ x ∈ o.parcels, x.item = item ∧ member ∈ x.waiting

theorem not_owes_empty (item : α) (member : MemberId) : ¬ (empty : Outbox α).Owes item member := by
  rintro ⟨x, hx, -⟩
  cases hx

/-- Without recipients nothing is put. -/
theorem put_eq_or (o : Outbox α) (item : α) (recipients : List MemberId) :
    o.put item recipients = o ∧ (∀ member, member ∉ recipients) ∨
      (o.put item recipients).parcels = o.parcels ++ [⟨item, Roll.ofList recipients⟩] ∧
        ∃ member, member ∈ Roll.ofList recipients := by
  unfold put
  by_cases none : (Roll.ofList recipients).isEmpty = true
  · refine .inl ⟨if_pos none, fun member hm => ?_⟩
    rw [← Roll.mem_ofList, Roll.mem_iff, List.isEmpty_iff.mp none] at hm
    cases hm
  · rw [if_neg none]
    exact .inr ⟨rfl, List.exists_mem_of_ne_nil _ (mt List.isEmpty_iff.mpr none)⟩

theorem awaited_put {o : Outbox α} (h : ∀ x ∈ o.parcels, ∃ member, member ∈ x.waiting) (item : α)
    (recipients : List MemberId) :
    ∀ x ∈ (o.put item recipients).parcels, ∃ member, member ∈ x.waiting := by
  obtain ⟨same, -⟩ | ⟨parcels, awaited⟩ := o.put_eq_or item recipients
  · rw [same]
    exact h
  · rw [parcels]
    intro x hx
    rcases List.mem_append.mp hx with hx | hx
    · exact h x hx
    · rw [List.mem_singleton.mp hx]
      exact awaited

theorem owes_put {o : Outbox α} {item i : α} {recipients : List MemberId} {member : MemberId} :
    (o.put item recipients).Owes i member ↔ o.Owes i member ∨ i = item ∧ member ∈ recipients := by
  obtain ⟨same, nobody⟩ | ⟨parcels, -⟩ := o.put_eq_or item recipients
  · rw [same]
    exact ⟨.inl, fun h => h.resolve_right fun new => nobody member new.2⟩
  · simp only [Owes, parcels, List.mem_append, List.mem_singleton]
    constructor
    · rintro ⟨x, hx | rfl, same, waits⟩
      · exact .inl ⟨x, hx, same, waits⟩
      · exact .inr ⟨same.symm, Roll.mem_ofList.mp waits⟩
    · rintro (⟨x, hx, same, waits⟩ | ⟨rfl, waits⟩)
      · exact ⟨x, .inl hx, same, waits⟩
      · exact ⟨_, .inr rfl, rfl, Roll.mem_ofList.mpr waits⟩

/-- Strikes a member off the parcels that pass a test, and drops those that wait for nobody. -/
def without (test : α → Bool) (member : MemberId) (l : List (Parcel α)) : List (Parcel α) :=
  (l.map fun x => if test x.item then { x with waiting := x.waiting.erase member } else x).filter
    fun x => !x.waiting.isEmpty

theorem awaited_iff {x : Parcel α} : (!x.waiting.isEmpty) = true ↔ ∃ member, member ∈ x.waiting :=
  Roll.awaited_iff

theorem mem_without {test : α → Bool} {other : MemberId} {l : List (Parcel α)} {item : α}
    {member : MemberId} :
    (∃ x ∈ without test other l, x.item = item ∧ member ∈ x.waiting) ↔
      (∃ x ∈ l, x.item = item ∧ member ∈ x.waiting) ∧ ¬ (test item = true ∧ member = other) := by
  simp only [without, List.mem_filter, List.mem_map, awaited_iff]
  constructor
  · rintro ⟨-, ⟨⟨x, hx, rfl⟩, -⟩, same, waits⟩
    split at same <;> rename_i struck
    · rw [if_pos struck] at waits
      obtain ⟨waited, kept⟩ := Roll.mem_erase.mp waits
      exact ⟨⟨x, hx, same, waited⟩, fun gone => kept gone.2⟩
    · rw [if_neg struck] at waits
      exact ⟨⟨x, hx, same, waits⟩, fun gone => struck (same ▸ gone.1)⟩
  · rintro ⟨⟨x, hx, rfl, waits⟩, kept⟩
    by_cases struck : test x.item = true
    · have waits' : member ∈ x.waiting.erase other :=
        Roll.mem_erase.mpr ⟨waits, fun gone => kept ⟨struck, gone⟩⟩
      exact ⟨_, ⟨⟨x, hx, if_pos struck⟩, member, waits'⟩, rfl, waits'⟩
    · exact ⟨_, ⟨⟨x, hx, if_neg struck⟩, member, waits⟩, rfl, waits⟩

theorem without_eq_self {test : α → Bool} {member : MemberId} {l : List (Parcel α)}
    (awaited : ∀ x ∈ l, ∃ member, member ∈ x.waiting)
    (untouched : ∀ x ∈ l, test x.item = true → member ∉ x.waiting) :
    without test member l = l := by
  have same : (l.map fun x => if test x.item then
      { x with waiting := x.waiting.erase member } else x) = l := by
    refine (List.map_congr_left fun x hx => ?_).trans (List.map_id' l)
    split
    · rename_i struck
      rw [Roll.erase_eq_self (untouched x hx struck)]
    · rfl
  rw [without, same, List.filter_eq_self]
  exact fun x hx => awaited_iff.mpr (awaited x hx)

theorem forget_eq (o : Outbox α) (member : MemberId) :
    (o.forget member).1.parcels = without (fun _ => true) member o.parcels := rfl

theorem owes_forget {o : Outbox α} {i : α} {member other : MemberId} :
    (o.forget other).1.Owes i member ↔ o.Owes i member ∧ member ≠ other := by
  rw [Owes, forget_eq, mem_without]
  simp only [true_and]
  rfl

/-- Only what a member still waits for is sent. -/
theorem owes_of_mem_round {o : Outbox α} [Mail α] {addressOf : MemberId → Option Address}
    {target : Address} {bytes : Bytes} (h : (target, bytes) ∈ o.round addressOf) :
    ∃ item member, o.Owes item member ∧ addressOf member = some target ∧
      bytes = Mail.encode item := by
  obtain ⟨x, hx, ⟨a, ha, same⟩⟩ := by
    simpa only [round, List.mem_flatMap, List.mem_map] using h
  obtain ⟨member, waits, found⟩ := List.mem_filterMap.mp ha
  cases same
  exact ⟨x.item, member, ⟨x, hx, rfl, waits⟩, found, rfl⟩

/-- With an address for every member that is waited for, only an empty outbox has an empty round. -/
theorem parcels_eq_nil_of_round {o : Outbox α} [Mail α] {addressOf : MemberId → Option Address}
    (awaited : ∀ x ∈ o.parcels, ∃ member, member ∈ x.waiting)
    (found : ∀ item member, o.Owes item member → ∃ a, addressOf member = some a)
    (nothing : o.round addressOf = []) : o.parcels = [] := by
  refine List.eq_nil_iff_forall_not_mem.mpr fun x hx => ?_
  obtain ⟨member, waits⟩ := awaited x hx
  obtain ⟨a, there⟩ := found x.item member ⟨x, hx, rfl, waits⟩
  have written : a ∈ x.waiting.toList.filterMap addressOf :=
    List.mem_filterMap.mpr ⟨member, waits, there⟩
  have sent : (a, Mail.encode x.item) ∈ o.round addressOf :=
    List.mem_flatMap.mpr ⟨x, hx, List.mem_map_of_mem written⟩
  rw [nothing] at sent
  cases sent

theorem not_owes_of_parcels_eq_nil {o : Outbox α} (h : o.parcels = []) (item : α)
    (member : MemberId) : ¬ o.Owes item member := by
  rintro ⟨x, hx, -⟩
  rw [h] at hx
  cases hx

variable [Mail α]

/-- No two parcels are about one message, and every parcel waits for someone. -/
structure Sound (o : Outbox α) : Prop where
  distinct : o.inFlight.Nodup
  awaited : ∀ x ∈ o.parcels, ∃ member, member ∈ x.waiting

theorem sound_empty : (empty : Outbox α).Sound := ⟨.nil, fun _ hx => by cases hx⟩

theorem Sound.mem_inFlight {o : Outbox α} (h : o.Sound) {id : MessageId} :
    id ∈ o.inFlight ↔ ∃ i member, Mail.about i = id ∧ o.Owes i member := by
  simp only [inFlight, List.mem_map]
  constructor
  · rintro ⟨x, hx, about⟩
    obtain ⟨member, waits⟩ := h.awaited x hx
    exact ⟨x.item, member, about, x, hx, rfl, waits⟩
  · rintro ⟨i, member, about, x, hx, rfl, -⟩
    exact ⟨x, hx, about⟩

/-- Whatever is put stands behind everything else. -/
theorem inFlight_put (o : Outbox α) (item : α) (recipients : List MemberId) :
    (o.put item recipients).inFlight = o.inFlight ∨
      (o.put item recipients).inFlight = o.inFlight ++ [Mail.about item] := by
  obtain ⟨same, -⟩ | ⟨parcels, -⟩ := o.put_eq_or item recipients
  · exact .inl (congrArg inFlight same)
  · right
    rw [inFlight, parcels, List.map_append]
    rfl

theorem sound_put {o : Outbox α} (h : o.Sound) {item : α} (recipients : List MemberId)
    (new : ∀ i member, o.Owes i member → Mail.about i ≠ Mail.about item) :
    (o.put item recipients).Sound := by
  refine ⟨?_, awaited_put h.awaited item recipients⟩
  rcases o.inFlight_put item recipients with same | behind
  · rw [same]
    exact h.distinct
  · have absent : Mail.about item ∉ o.inFlight := fun listed =>
      have ⟨i, member, about, owes⟩ := h.mem_inFlight.mp listed
      new i member owes about
    rw [behind]
    refine List.nodup_append.mpr ⟨h.distinct, List.nodup_singleton _, fun a ha b hb same => ?_⟩
    rw [same, List.mem_singleton.mp hb] at ha
    exact absent ha

theorem inFlight_without {o k : Outbox α} {test : α → Bool} {member : MemberId}
    (left : k.parcels = without test member o.parcels) : k.inFlight.Sublist o.inFlight := by
  have items : (o.parcels.map fun x => if test x.item then
      { x with waiting := x.waiting.erase member } else x).map (fun x => Mail.about x.item) =
      o.inFlight := by
    rw [List.map_map]
    apply List.map_congr_left
    intro x _
    simp only [Function.comp_apply]
    split <;> rfl
  rw [inFlight, left]
  exact items ▸ List.filter_sublist.map _

theorem sound_without {o k : Outbox α} (h : o.Sound) (test : α → Bool) (member : MemberId)
    (left : k.parcels = without test member o.parcels) : k.Sound := by
  constructor
  · exact h.distinct.sublist (inFlight_without left)
  · intro x hx
    rw [left] at hx
    exact awaited_iff.mp (List.mem_filter.mp hx).2

theorem sound_forget {o : Outbox α} (h : o.Sound) (member : MemberId) :
    (o.forget member).1.Sound :=
  sound_without h _ member (forget_eq o member)

theorem about_ne_of_mem_tail {x y : Parcel α} {rest : List (Parcel α)}
    (distinct : ((x :: rest).map fun x => Mail.about x.item).Nodup) (hy : y ∈ rest) :
    Mail.about y.item ≠ Mail.about x.item := by
  intro same
  apply (List.nodup_cons.mp distinct).1
  exact List.mem_map.mpr ⟨y, hy, same⟩

theorem strike_eq (id : MessageId) (recipient : MemberId) {l : List (Parcel α)}
    (distinct : (l.map fun x => Mail.about x.item).Nodup)
    (awaited : ∀ x ∈ l, ∃ member, member ∈ x.waiting) :
    (strike id recipient l).1 = without (fun i => Mail.about i = id) recipient l := by
  induction l with
  | nil => rfl
  | cons x rest ih =>
    have hrest := (List.nodup_cons.mp distinct).2
    obtain ⟨hwait, hwaits⟩ := List.forall_mem_cons.mp awaited
    unfold strike
    by_cases here : Mail.about x.item = id
    · -- no later parcel is about the message
      have others : without (fun i => decide (Mail.about i = id)) recipient rest = rest := by
        refine without_eq_self hwaits fun y hy hyi => ?_
        exact absurd ((of_decide_eq_true hyi).trans here.symm) (about_ne_of_mem_tail distinct hy)
      rw [without] at others ⊢
      rw [if_pos here, List.map_cons, List.filter_cons, others]
      simp only [here, decide_true, if_true]
      by_cases none : (x.waiting.erase recipient).isEmpty = true
      · simp [none]
      · simp [none]
    · have stays : (!x.waiting.isEmpty) = true := awaited_iff.mpr hwait
      rw [if_neg here]
      change x :: (strike id recipient rest).1 = _
      rw [ih hrest hwaits]
      simp [without, here, stays]

theorem acknowledge_eq {o : Outbox α} (h : o.Sound) (id : MessageId) (recipient : MemberId) :
    (o.acknowledge id recipient).1.parcels =
      without (fun i => Mail.about i = id) recipient o.parcels :=
  strike_eq id recipient h.distinct h.awaited

theorem owes_acknowledge {o : Outbox α} (h : o.Sound) {id : MessageId} {recipient : MemberId}
    {i : α} {member : MemberId} : (o.acknowledge id recipient).1.Owes i member ↔
      o.Owes i member ∧ ¬ (Mail.about i = id ∧ member = recipient) := by
  rw [Owes, acknowledge_eq h, mem_without]
  simp only [decide_eq_true_eq]
  rfl

theorem sound_acknowledge {o : Outbox α} (h : o.Sound) (id : MessageId) (recipient : MemberId) :
    (o.acknowledge id recipient).1.Sound :=
  sound_without h _ recipient (acknowledge_eq h id recipient)

theorem strike_snd_iff {id : MessageId} {recipient : MemberId} {l : List (Parcel α)}
    (distinct : (l.map fun x => Mail.about x.item).Nodup) :
    (strike id recipient l).2 = true ↔
      ∃ x ∈ l, Mail.about x.item = id ∧ recipient ∈ x.waiting := by
  induction l with
  | nil => simp [strike]
  | cons x rest ih =>
    have hrest := (List.nodup_cons.mp distinct).2
    unfold strike
    by_cases here : Mail.about x.item = id
    · rw [if_pos here, decide_eq_true_eq]
      constructor
      · exact fun waits => ⟨x, List.mem_cons_self, here, waits⟩
      · rintro ⟨y, hy, about, waits⟩
        rcases List.mem_cons.mp hy with rfl | hy
        · exact waits
        · exact absurd (about.trans here.symm) (about_ne_of_mem_tail distinct hy)
    · rw [if_neg here]
      change (strike id recipient rest).2 = true ↔ _
      rw [ih hrest]
      simp [here]

/-- An acknowledgement was still awaited if something about the message is owed to the member. -/
theorem acknowledge_snd_iff {o : Outbox α} (h : o.Sound) {id : MessageId} {recipient : MemberId} :
    (o.acknowledge id recipient).2 = true ↔ ∃ i, Mail.about i = id ∧ o.Owes i recipient := by
  rw [acknowledge, strike_snd_iff h.distinct]
  constructor
  · rintro ⟨x, hx, about, waits⟩
    exact ⟨x.item, about, x, hx, rfl, waits⟩
  · rintro ⟨i, about, x, hx, rfl, waits⟩
    exact ⟨x, hx, about, waits⟩

/-- An acknowledgement that nobody waits for changes nothing. -/
theorem acknowledge_eq_self {o : Outbox α} (h : o.Sound) {id : MessageId} {recipient : MemberId}
    (none : ∀ i, Mail.about i = id → ¬ o.Owes i recipient) :
    o.acknowledge id recipient = (o, false) := by
  have parcels : (strike id recipient o.parcels).1 = o.parcels := by
    rw [strike_eq id recipient h.distinct h.awaited]
    apply without_eq_self h.awaited
    intro x hx about waits
    exact none x.item (of_decide_eq_true about) ⟨x, hx, rfl, waits⟩
  have unawaited : (strike id recipient o.parcels).2 = false := by
    apply Bool.eq_false_iff.mpr
    intro struck
    obtain ⟨i, about, owes⟩ := (acknowledge_snd_iff h).mp struck
    exact none i about owes
  rw [acknowledge, ← Prod.eta (strike id recipient o.parcels), parcels, unawaited]

/-- An acknowledgement is awaited, or nothing happens. -/
theorem acknowledge_cases {o : Outbox α} (h : o.Sound) (id : MessageId) (recipient : MemberId) :
    o.acknowledge id recipient = (o, false) ∨
      (o.acknowledge id recipient).2 = true ∧ ∃ i, Mail.about i = id ∧ o.Owes i recipient := by
  cases awaited : (o.acknowledge id recipient).2 with
  | true => exact .inr ⟨rfl, (acknowledge_snd_iff h).mp awaited⟩
  | false =>
    refine .inl (acknowledge_eq_self h fun i about owes => ?_)
    exact Bool.false_ne_true (awaited.symm.trans ((acknowledge_snd_iff h).mpr ⟨i, about, owes⟩))

theorem owes_of_strike {id : MessageId} {recipient : MemberId} {l : List (Parcel α)} {item : α}
    {member : MemberId} (h : ∃ x ∈ (strike id recipient l).1, x.item = item ∧ member ∈ x.waiting) :
    ∃ x ∈ l, x.item = item ∧ member ∈ x.waiting := by
  induction l with
  | nil => exact h
  | cons y rest ih =>
    obtain ⟨x, hx, same, waits⟩ := h
    unfold strike at hx
    dsimp only at hx
    split at hx
    · split at hx
      · exact ⟨x, List.mem_cons_of_mem _ hx, same, waits⟩
      · rcases List.mem_cons.mp hx with rfl | later
        · exact ⟨y, List.mem_cons_self, same, (Roll.mem_erase.mp waits).1⟩
        · exact ⟨x, List.mem_cons_of_mem _ later, same, waits⟩
    · rcases List.mem_cons.mp hx with rfl | later
      · exact ⟨x, List.mem_cons_self, same, waits⟩
      · obtain ⟨z, hz, found⟩ := ih ⟨x, later, same, waits⟩
        exact ⟨z, List.mem_cons_of_mem _ hz, found⟩

/-- An acknowledgement never makes anything owed, in any outbox. -/
theorem owes_of_acknowledge {o : Outbox α} {id : MessageId} {recipient : MemberId} {i : α}
    {member : MemberId} (h : (o.acknowledge id recipient).1.Owes i member) : o.Owes i member :=
  owes_of_strike h

theorem awaited_strike (id : MessageId) (recipient : MemberId) {l : List (Parcel α)}
    (h : ∀ x ∈ l, ∃ member, member ∈ x.waiting) :
    ∀ x ∈ (strike id recipient l).1, ∃ member, member ∈ x.waiting := by
  induction l with
  | nil => exact h
  | cons y rest ih =>
    obtain ⟨here, later⟩ := List.forall_mem_cons.mp h
    unfold strike
    dsimp only
    split
    · split
      · exact later
      · rename_i someone
        refine List.forall_mem_cons.mpr ⟨awaited_iff.mp ?_, later⟩
        simpa using someone
    · exact List.forall_mem_cons.mpr ⟨here, ih later⟩

/-- An acknowledgement leaves no parcel that waits for nobody, messages put twice or not. -/
theorem awaited_acknowledge {o : Outbox α} (h : ∀ x ∈ o.parcels, ∃ member, member ∈ x.waiting)
    (id : MessageId) (recipient : MemberId) :
    ∀ x ∈ (o.acknowledge id recipient).1.parcels, ∃ member, member ∈ x.waiting :=
  awaited_strike id recipient h

/-- The recipients that are still listed for a message are those that something about it is owed. -/
theorem mem_remaining_iff {o : Outbox α} (h : o.Sound) {id : MessageId} {member : MemberId} :
    (∃ l, o.remaining? id = some l ∧ member ∈ l) ↔ ∃ i, o.Owes i member ∧ Mail.about i = id := by
  unfold remaining?
  constructor
  · rintro ⟨l, found, listed⟩
    obtain ⟨x, hx, rfl⟩ := Option.map_eq_some_iff.mp found
    have about : Mail.about x.item = id := by simpa using List.find?_some hx
    exact ⟨x.item, ⟨x, List.mem_of_find?_eq_some hx, rfl, listed⟩, about⟩
  · rintro ⟨i, ⟨x, hx, rfl, waits⟩, about⟩
    have found : o.parcels.find? (fun p => Mail.about p.item = id) = some x :=
      (find?_eq_some_iff_of_distinct h.distinct).mpr ⟨hx, about⟩
    exact ⟨x.waiting.toList, by rw [found]; rfl, waits⟩

end Outbox

end Concord
