import Concord.Proofs.Record.Codec
import Concord.Proofs.Retry.Outbox
import Mathlib.Data.List.Forall2

/-!
What is done to an outbox one after another, and what it owes afterwards: every item that was put,
in the order of putting, to each of its recipients, in ascending order, that nothing done later
has struck off. A round of the outbox is one datagram for each.
-/

namespace Concord

/-- What is mailed is a record. -/
class Posted (α : Type) [Mail α] where
  record : α → Record
  encode_eq : ∀ i : α, Mail.encode i = (record i).encode

instance : Posted Message := ⟨.message, fun _ => rfl⟩

instance : Posted Decision := ⟨.decision, fun _ => rfl⟩

inductive Deed (α : Type) where
  | put (item : α) (recipients : List MemberId)
  | acknowledge (id : MessageId) (member : MemberId)
  | forget (member : MemberId)

namespace Deed

variable {α : Type}

/-- Something is put for someone. -/
def feeds : Deed α → Bool
  | .put _ recipients => !recipients.isEmpty
  | _ => false

variable [Mail α]

/-- Whether a deed takes a member off the recipients of an item. -/
def strikes : Deed α → α → MemberId → Bool
  | .put _ _, _, _ => false
  | .acknowledge id member, i, m => decide (Mail.about i = id) && decide (m = member)
  | .forget member, _, m => decide (m = member)

/-- What deeds in a row leave owed, with the members it is owed to. -/
def owed : List (Deed α) → List (α × MemberId)
  | [] => []
  | .put item recipients :: later =>
    ((Roll.ofList recipients).toList.filter fun m => !later.any (·.strikes item m)).map (item, ·)
      ++ owed later
  | .acknowledge _ _ :: later => owed later
  | .forget _ :: later => owed later

theorem owed_concat (ds : List (Deed α)) (d : Deed α) :
    owed (ds ++ [d]) = (owed ds).filter (fun x => !d.strikes x.1 x.2) ++ owed [d] := by
  induction ds with
  | nil => rfl
  | cons first rest ih =>
    cases first with
    | put item recipients =>
      simp only [List.cons_append, owed, ih, List.any_append, List.any_cons, List.any_nil,
        Bool.or_false, Bool.not_or, List.filter_append, List.filter_map, List.filter_filter,
        List.append_assoc]
      congr 3
      funext m
      exact Bool.and_comm _ _
    | acknowledge | forget => exact ih

theorem mem_owed_iff {ds : List (Deed α)} {item : α} {member : MemberId} :
    (item, member) ∈ owed ds ↔ ∃ before recipients later,
      ds = before ++ .put item recipients :: later ∧ member ∈ recipients ∧
        ∀ d ∈ later, d.strikes item member = false := by
  induction ds with
  | nil => simp [owed]
  | cons first rest ih =>
    constructor
    · intro h
      cases first with
      | put item' recipients =>
        rcases List.mem_append.mp h with here | there
        · obtain ⟨m, hm, same⟩ := List.mem_map.mp here
          cases same
          obtain ⟨listed, kept⟩ := List.mem_filter.mp hm
          refine ⟨[], recipients, rest, rfl, Roll.mem_ofList.mp listed, ?_⟩
          simpa using kept
        · obtain ⟨before, recipients', later, rfl, found⟩ := ih.mp there
          exact ⟨_ :: before, recipients', later, rfl, found⟩
      | acknowledge | forget =>
        obtain ⟨before, recipients', later, rfl, found⟩ := ih.mp h
        exact ⟨_ :: before, recipients', later, rfl, found⟩
    · rintro ⟨before, recipients, later, split, listed, kept⟩
      cases before with
      | nil =>
        cases split
        refine List.mem_append_left _ (List.mem_map.mpr ⟨member, List.mem_filter.mpr ⟨?_, ?_⟩, rfl⟩)
        · exact Roll.mem_ofList.mpr listed
        · simpa using kept
      | cons _ before =>
        cases split
        have there := ih.mpr ⟨before, recipients, later, rfl, listed, kept⟩
        cases first with
        | put => exact List.mem_append_right _ there
        | acknowledge | forget => exact there

theorem mem_owed_singleton {d : Deed α} {item : α} {member : MemberId} :
    (item, member) ∈ owed [d] ↔ ∃ recipients, d = .put item recipients ∧ member ∈ recipients := by
  rw [mem_owed_iff]
  constructor
  · rintro ⟨before, recipients, later, split, listed, -⟩
    cases before with
    | nil =>
      cases split
      exact ⟨recipients, rfl, listed⟩
    | cons => simp at split
  · rintro ⟨recipients, rfl, listed⟩
    exact ⟨[], recipients, [], rfl, listed, nofun⟩

end Deed

/-- The item with each member that it waits for. -/
def Parcel.owing {α : Type} (p : Parcel α) : List (α × MemberId) :=
  p.waiting.toList.map (p.item, ·)

namespace Outbox

variable {α : Type} [Mail α]

def perform (o : Outbox α) : Deed α → Outbox α
  | .put item recipients => o.put item recipients
  | .acknowledge id member => (o.acknowledge id member).1
  | .forget member => (o.forget member).1

def owing (o : Outbox α) : List (α × MemberId) := o.parcels.flatMap Parcel.owing

omit [Mail α] in
/-- To drop a parcel that waits for nobody drops nothing that is owed. -/
theorem owing_awaited (l : List (Parcel α)) :
    (l.filter fun p => !p.waiting.isEmpty).flatMap Parcel.owing = l.flatMap Parcel.owing := by
  induction l with
  | nil => rfl
  | cons p rest ih =>
    rw [List.filter_cons, List.flatMap_cons, ← ih]
    split
    · rw [List.flatMap_cons]
    · rename_i nobody
      rw [Roll.isEmpty, Bool.not_eq_true', Bool.not_eq_false, List.isEmpty_iff] at nobody
      rw [Parcel.owing, nobody, List.map_nil, List.nil_append]

omit [Mail α] in
theorem owing_without {o k : Outbox α} {test : α → Bool} {member : MemberId}
    (left : k.parcels = without test member o.parcels) :
    k.owing = o.owing.filter fun x => !(test x.1 && decide (x.2 = member)) := by
  rw [owing, left, without, owing_awaited, List.flatMap_map, owing, List.filter_flatMap]
  refine List.flatMap_congr fun p _ => ?_
  rw [Parcel.owing, Parcel.owing, List.filter_map]
  cases struck : test p.item <;> simp [struck, Roll.erase, Function.comp_def]

theorem owing_perform {o : Outbox α} (h : o.Sound) (d : Deed α) :
    (o.perform d).owing = o.owing.filter (fun x => !d.strikes x.1 x.2) ++ Deed.owed [d] := by
  cases d with
  | put item recipients =>
    have stays : o.owing.filter (fun _ => !false) = o.owing := List.filter_true _
    have new : Deed.owed [.put item recipients] =
        (Roll.ofList recipients).toList.map (item, ·) := by
      simp [Deed.owed]
    rw [perform, new]
    simp only [Deed.strikes, stays]
    obtain ⟨same, nobody⟩ | ⟨parcels, -⟩ := o.put_eq_or item recipients
    · have none : (Roll.ofList recipients).toList = [] :=
        List.eq_nil_iff_forall_not_mem.mpr fun m hm => nobody m (Roll.mem_ofList.mp hm)
      rw [same, none, List.map_nil, List.append_nil]
    · rw [owing, parcels, List.flatMap_append, List.flatMap_singleton]
      rfl
  | acknowledge id member =>
    exact (owing_without (acknowledge_eq h id member)).trans (List.append_nil _).symm
  | forget member =>
    exact (owing_without (forget_eq o member)).trans (by simp [Deed.owed, Deed.strikes])

/-- An item is put only while no other about its message is held. -/
def Fits (o : Outbox α) : Deed α → Prop
  | .put item _ => Mail.about item ∉ o.inFlight
  | _ => True

theorem sound_perform {o : Outbox α} (h : o.Sound) {d : Deed α} (fits : o.Fits d) :
    (o.perform d).Sound := by
  cases d with
  | put item recipients =>
    refine sound_put h recipients fun i member owes same => fits ?_
    exact h.mem_inFlight.mpr ⟨i, member, same, owes⟩
  | acknowledge id member => exact sound_acknowledge h id member
  | forget member => exact sound_forget h member

theorem awaited_perform {o : Outbox α} (h : ∀ x ∈ o.parcels, ∃ member, member ∈ x.waiting) (d : Deed α) :
    ∀ x ∈ (o.perform d).parcels, ∃ member, member ∈ x.waiting := by
  cases d with
  | put item recipients => exact awaited_put h item recipients
  | acknowledge id member => exact awaited_acknowledge h id member
  | forget member => exact fun x hx => awaited_iff.mp (List.mem_filter.mp hx).2

/-- To put something into an empty outbox leaves a call to be made. -/
theorem calls_of_feeds {o : Outbox α} {d : Deed α} (feeds : d.feeds = true) :
    o.calls ≤ (o.perform d).calls ∧ (o.parcels = [] → 0 < (o.perform d).calls) := by
  cases d with
  | acknowledge | forget => cases feeds
  | put item recipients =>
    have someone : ¬ (Roll.ofList recipients).isEmpty = true := by
      intro none
      cases recipients with
      | nil => cases feeds
      | cons m rest =>
        have listed : m ∈ Roll.ofList (m :: rest) := Roll.mem_ofList.mpr List.mem_cons_self
        rw [Roll.mem_iff, List.isEmpty_iff.mp none] at listed
        cases listed
    rw [perform, put, if_neg someone]
    dsimp only
    constructor
    · split <;> omega
    · intro none
      rw [if_pos (by rw [isEmpty, none]; rfl)]
      omega

theorem calls_of_not_feeds {o : Outbox α} {d : Deed α} (idle : d.feeds = false) :
    (o.perform d).calls = o.calls ∧ ((o.perform d).parcels ≠ [] → o.parcels ≠ []) := by
  cases d with
  | put item recipients =>
    cases recipients with
    | nil => exact ⟨rfl, id⟩
    | cons => cases idle
  | acknowledge id member =>
    refine ⟨rfl, fun left none => left ?_⟩
    rw [perform, acknowledge, none]
    rfl
  | forget member =>
    refine ⟨rfl, fun left none => left ?_⟩
    rw [perform, forget, none]
    rfl

/-- What is put into an empty outbox leaves a call to be made, and no deed takes one back. -/
theorem called_perform {o : Outbox α} {kept : Prop} (h : o.parcels ≠ [] → 0 < o.calls ∨ kept) (d : Deed α)
    (something : (o.perform d).parcels ≠ []) : 0 < (o.perform d).calls ∨ kept := by
  cases feeds : d.feeds with
  | true =>
    obtain ⟨more, first⟩ := calls_of_feeds (o := o) feeds
    by_cases none : o.parcels = []
    · exact .inl (first none)
    · exact (h none).imp_left fun some => Nat.lt_of_lt_of_le some more
  | false =>
    obtain ⟨same, left⟩ := calls_of_not_feeds (o := o) feeds
    rw [same]
    exact h (left something)

/-- A datagram that brings an item's record to the address of a member. -/
def Brings [Posted α] (addressOf : MemberId → Option Address) (datagram : Address × Bytes)
    (x : α × MemberId) : Prop :=
  addressOf x.2 = some datagram.1 ∧ Record.decode datagram.2 = .ok (Posted.record x.1)

/-- With an address for every member that is waited for, a round is one datagram for everything
that is owed. -/
theorem round_brings [Posted α] {o : Outbox α} {addressOf : MemberId → Option Address}
    (found : ∀ item member, o.Owes item member → ∃ a, addressOf member = some a) :
    List.Forall₂ (Brings addressOf) (o.round addressOf) o.owing := by
  have parcel (p : Parcel α) : ∀ l : List MemberId, (∀ m ∈ l, ∃ a, addressOf m = some a) →
      List.Forall₂ (Brings addressOf)
        ((l.filterMap addressOf).map fun a => (a, Mail.encode p.item)) (l.map (p.item, ·)) := by
    intro l known
    induction l with
    | nil => exact .nil
    | cons m rest ih =>
      obtain ⟨⟨a, at'⟩, others⟩ := List.forall_mem_cons.mp known
      rw [List.filterMap_cons_some at', List.map_cons, List.map_cons]
      refine .cons ⟨at', ?_⟩ (ih others)
      rw [Posted.encode_eq]
      exact Record.decode_encode _
  have known : ∀ p ∈ o.parcels, ∀ m ∈ p.waiting.toList, ∃ a, addressOf m = some a :=
    fun p hp m waits => found p.item m ⟨p, hp, rfl, waits⟩
  rw [round, owing]
  generalize o.parcels = l at known
  induction l with
  | nil => exact .nil
  | cons p rest ih =>
    obtain ⟨here, others⟩ := List.forall_mem_cons.mp known
    exact List.rel_append (parcel p _ here) (ih others)

end Outbox

end Concord
