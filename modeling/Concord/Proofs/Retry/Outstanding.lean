import Concord.Proofs.Retry.Deeds
import Mathlib.Data.List.Induction
import Mathlib.Logic.Function.Basic

/-!
An outbox as a map: for each message the members that have still to acknowledge it. These are the
members that it was put for, less everyone who has acknowledged it or was forgotten since. All that an
outbox answers is read off this map, and no acknowledgement counts twice.
-/

namespace Concord

namespace Deed

variable {α : Type} [Mail α]

/-- The message that something is put about. -/
def subject? : Deed α → Option MessageId
  | .put item _ => some (Mail.about item)
  | .acknowledge _ _ => none
  | .forget _ => none

/-- The messages that something is put about, in order. -/
def subjects (ds : List (Deed α)) : List MessageId := ds.filterMap subject?

/-- What a deed makes of the members outstanding for each message. -/
def update (due : MessageId → Roll MemberId) : Deed α → MessageId → Roll MemberId
  | .put item recipients => Function.update due (Mail.about item) (Roll.ofList recipients)
  | .acknowledge id member => Function.update due id ((due id).erase member)
  | .forget member => fun id => (due id).erase member

/-- The members outstanding for each message after deeds in a row. -/
def outstanding (ds : List (Deed α)) : MessageId → Roll MemberId :=
  ds.foldl update fun _ => .empty

/-- Whether a deed excuses a member from acknowledging a message. -/
def excuses : Deed α → MessageId → MemberId → Bool
  | .put _ _, _, _ => false
  | .acknowledge id member, i, m => decide (i = id) && decide (m = member)
  | .forget member, _, m => decide (m = member)

theorem strikes_eq (d : Deed α) (item : α) (member : MemberId) :
    d.strikes item member = d.excuses (Mail.about item) member := by
  cases d <;> rfl

theorem subjects_cons (d : Deed α) (ds : List (Deed α)) :
    subjects (d :: ds) = d.subject?.toList ++ subjects ds := by
  rw [subjects, subjects, List.filterMap_cons]
  cases d <;> rfl

theorem subjects_concat (ds : List (Deed α)) (d : Deed α) :
    subjects (ds ++ [d]) = subjects ds ++ d.subject?.toList := by
  rw [subjects, subjects, List.filterMap_append]
  cases subject : d.subject? <;> simp [subject]

theorem outstanding_concat (ds : List (Deed α)) (d : Deed α) :
    outstanding (ds ++ [d]) = d.update (outstanding ds) := by
  rw [outstanding, List.foldl_append]
  rfl

theorem fresh_of_nodup {ids : List MessageId} {d : Deed α}
    (distinct : (ids ++ d.subject?.toList).Nodup) : ∀ id ∈ d.subject?, id ∉ ids :=
  fun _ subject listed =>
    (List.nodup_append.mp distinct).2.2 _ listed _ (Option.mem_toList.mpr subject) rfl

/-- Something is put for new members, and others are excused. -/
theorem mem_update_iff {due : MessageId → Roll MemberId} {d : Deed α} {id : MessageId}
    {member : MemberId} (fresh : ∀ i ∈ d.subject?, member ∉ due i) :
    member ∈ d.update due id ↔ member ∈ due id ∧ d.excuses id member = false ∨
      ∃ item recipients, d = .put item recipients ∧ Mail.about item = id ∧ member ∈ recipients := by
  cases d with
  | put item recipients =>
    rw [update]
    by_cases here : id = Mail.about item
    · subst here
      rw [Function.update_self, Roll.mem_ofList]
      constructor
      · exact fun listed => .inr ⟨item, recipients, rfl, rfl, listed⟩
      · rintro (⟨old, -⟩ | ⟨_, _, ⟨⟩, -, listed⟩)
        · exact absurd old (fresh _ rfl)
        · exact listed
    · rw [Function.update_of_ne here]
      constructor
      · exact fun old => .inl ⟨old, rfl⟩
      · rintro (⟨old, -⟩ | ⟨_, _, ⟨⟩, about, -⟩)
        · exact old
        · exact absurd about.symm here
  | acknowledge other gone =>
    by_cases here : id = other
    · subst here
      simp [update, excuses, Roll.mem_erase]
    · simp [update, excuses, here]
  | forget gone => simp [update, excuses, Roll.mem_erase]

theorem about_mem_subjects {ds : List (Deed α)} {item : α} {member : MemberId}
    (owes : (item, member) ∈ owed ds) : Mail.about item ∈ subjects ds := by
  obtain ⟨before, recipients, later, rfl, -⟩ := mem_owed_iff.mp owes
  exact List.mem_filterMap.mpr ⟨.put item recipients, by simp, rfl⟩

/-- The map says what the deeds leave owed, as long as nothing is put twice about one message. -/
theorem mem_outstanding_iff {ds : List (Deed α)} (distinct : (subjects ds).Nodup) {id : MessageId}
    {member : MemberId} :
    member ∈ outstanding ds id ↔ ∃ item, (item, member) ∈ owed ds ∧ Mail.about item = id := by
  induction ds using List.reverseRecOn generalizing id with
  | nil => simp [outstanding, owed, Roll.not_mem_empty]
  | append_singleton ds last ih =>
    rw [subjects_concat] at distinct
    have before {i : MessageId} :
        member ∈ outstanding ds i ↔ ∃ item, (item, member) ∈ owed ds ∧ Mail.about item = i :=
      ih distinct.of_append_left
    -- what was owed before is about other messages than the one that is put last
    have fresh : ∀ i ∈ last.subject?, member ∉ outstanding ds i := by
      intro i subject old
      obtain ⟨item, owes, rfl⟩ := before.mp old
      exact fresh_of_nodup distinct _ subject (about_mem_subjects owes)
    rw [outstanding_concat, mem_update_iff fresh, owed_concat]
    simp only [List.mem_append, List.mem_filter, mem_owed_singleton, strikes_eq, Bool.not_eq_true']
    constructor
    · rintro (⟨old, stays⟩ | ⟨item, recipients, put, about, listed⟩)
      · obtain ⟨item, owes, rfl⟩ := before.mp old
        exact ⟨item, .inl ⟨owes, stays⟩, rfl⟩
      · exact ⟨item, .inr ⟨recipients, put, listed⟩, about⟩
    · rintro ⟨item, ⟨owes, stays⟩ | ⟨recipients, put, listed⟩, about⟩
      · subst about
        exact .inl ⟨before.mpr ⟨item, owes, rfl⟩, stays⟩
      · exact .inr ⟨item, recipients, put, about, listed⟩

end Deed

theorem Roll.isEmpty_iff {α : Type} [Ranked α] {s : Roll α} : s.isEmpty = true ↔ ∀ a, a ∉ s :=
  List.isEmpty_iff.trans List.eq_nil_iff_forall_not_mem

theorem Roll.isEmpty_eq_false_of_mem {α : Type} [Ranked α] {s : Roll α} {a : α} (h : a ∈ s) :
    s.isEmpty = false :=
  Bool.eq_false_iff.mpr fun nobody => Roll.isEmpty_iff.mp nobody a h

namespace Outbox

/-- The messages listed with their members, but for those that nobody is outstanding for. -/
def chart (ids : List MessageId) (due : MessageId → Roll MemberId) :
    List (MessageId × Roll MemberId) :=
  (ids.map fun id => (id, due id)).filter fun x => !x.2.isEmpty

theorem chart_append (ids more : List MessageId) (due : MessageId → Roll MemberId) :
    chart (ids ++ more) due = chart ids due ++ chart more due := by
  rw [chart, List.map_append, List.filter_append]
  rfl

/-- Strikes a member off a message that passes a test. -/
def struck (test : MessageId → Bool) (member : MemberId) (x : MessageId × Roll MemberId) :
    MessageId × Roll MemberId :=
  (x.1, if test x.1 then x.2.erase member else x.2)

/-- Members may be struck off with the messages that nobody is outstanding for listed or not. -/
theorem chart_struck (ids : List MessageId) (due : MessageId → Roll MemberId)
    (test : MessageId → Bool) (member : MemberId) :
    ((chart ids due).map (struck test member)).filter (fun x => !x.2.isEmpty) =
      chart ids fun id => if test id then (due id).erase member else due id := by
  have already (x : MessageId × Roll MemberId) :
      (!(struck test member x).2.isEmpty && !x.2.isEmpty) = !(struck test member x).2.isEmpty := by
    cases nobody : x.2.isEmpty with
    | false => exact Bool.and_true _
    | true =>
      have still : (struck test member x).2.isEmpty = true := by
        dsimp only [struck]
        split
        · exact Roll.isEmpty_iff.mpr fun m kept =>
            Roll.isEmpty_iff.mp nobody m (Roll.mem_erase.mp kept).1
        · exact nobody
      rw [still]
      rfl
  have listed : chart ids (fun id => if test id then (due id).erase member else due id) =
      ((ids.map fun id => (id, due id)).map (struck test member)).filter fun x => !x.2.isEmpty := by
    rw [List.map_map]
    rfl
  rw [listed, List.filter_map, List.filter_map, chart, List.filter_filter]
  simp only [Function.comp_apply, Function.comp_def, already]

variable {α : Type} [Mail α]

def run (o : Outbox α) (ds : List (Deed α)) : Outbox α := ds.foldl perform o

/-- The acknowledgement that a deed is, if it was still awaited. -/
def accepts? (o : Outbox α) : Deed α → Option (MessageId × MemberId)
  | .acknowledge id member => if (o.acknowledge id member).2 then some (id, member) else none
  | _ => none

/-- The acknowledgements that were still awaited when they came, in order. -/
def accepted (o : Outbox α) : List (Deed α) → List (MessageId × MemberId)
  | [] => []
  | d :: rest => (o.accepts? d).toList ++ (o.perform d).accepted rest

/-- The messages held, each with the members that it waits for. -/
def view (o : Outbox α) : List (MessageId × Roll MemberId) :=
  o.parcels.map fun p => (Mail.about p.item, p.waiting)

theorem view_without {o k : Outbox α} {test : MessageId → Bool} {member : MemberId}
    (left : k.parcels = without (fun i => test (Mail.about i)) member o.parcels) :
    k.view = (o.view.map (struck test member)).filter fun x => !x.2.isEmpty := by
  have trimmed : o.view.map (struck test member) = (o.parcels.map fun p =>
      if test (Mail.about p.item) then { p with waiting := p.waiting.erase member } else p).map
        fun p => (Mail.about p.item, p.waiting) := by
    rw [view, List.map_map, List.map_map]
    refine List.map_congr_left fun p _ => ?_
    dsimp only [Function.comp_apply, struck]
    split <;> rfl
  rw [view, left, trimmed, List.filter_map]
  rfl

/-- The outbox holds exactly what the map says of the messages listed, in their order. -/
structure Mirrors (ids : List MessageId) (due : MessageId → Roll MemberId) (o : Outbox α) :
    Prop where
  distinct : ids.Nodup
  unlisted : ∀ id, id ∉ ids → due id = .empty
  view_eq : o.view = chart ids due

namespace Mirrors

variable {ids : List MessageId} {due : MessageId → Roll MemberId} {o : Outbox α}

theorem empty : Mirrors [] (fun _ => Roll.empty) (empty : Outbox α) := ⟨.nil, fun _ _ => rfl, rfl⟩

theorem not_mem (h : Mirrors ids due o) {id : MessageId} (unlisted : id ∉ ids) {member : MemberId} :
    member ∉ due id := by
  rw [h.unlisted id unlisted]
  exact Roll.not_mem_empty member

theorem mem_view_iff (h : Mirrors ids due o) {id : MessageId} {waiting : Roll MemberId} :
    (id, waiting) ∈ o.view ↔ waiting = due id ∧ (due id).isEmpty = false := by
  rw [h.view_eq, chart, List.mem_filter, List.mem_map, Bool.not_eq_true']
  constructor
  · rintro ⟨⟨i, -, same⟩, someone⟩
    cases same
    exact ⟨rfl, someone⟩
  · rintro ⟨rfl, someone⟩
    refine ⟨⟨id, ?_, rfl⟩, someone⟩
    by_contra unlisted
    rw [h.unlisted id unlisted] at someone
    cases someone

theorem inFlight_eq (h : Mirrors ids due o) :
    o.inFlight = ids.filter fun id => !(due id).isEmpty := by
  have names : o.inFlight = o.view.map Prod.fst := by
    rw [view, List.map_map]
    rfl
  rw [names, h.view_eq, chart, List.filter_map, List.map_map]
  exact List.map_id' _

theorem sound (h : Mirrors ids due o) : o.Sound := by
  refine ⟨h.inFlight_eq ▸ h.distinct.filter _, fun p hp => awaited_iff.mp ?_⟩
  obtain ⟨waiting, someone⟩ := h.mem_view_iff.mp (List.mem_map_of_mem hp)
  rw [waiting, someone]
  rfl

theorem remaining?_eq (h : Mirrors ids due o) (id : MessageId) :
    o.remaining? id = if (due id).isEmpty then none else some (due id).toList := by
  have look : o.remaining? id = (o.view.find? fun x => x.1 = id).map fun x => x.2.toList := by
    rw [view, List.find?_map, Option.map_map]
    rfl
  rw [look]
  cases found : o.view.find? fun x => x.1 = id with
  | none =>
    have nobody : (due id).isEmpty = true := by
      by_contra someone
      have listed := h.mem_view_iff.mpr ⟨rfl, Bool.eq_false_iff.mpr someone⟩
      exact List.find?_eq_none.mp found _ listed (decide_eq_true rfl)
    rw [if_pos nobody]
    rfl
  | some x =>
    have about : x.1 = id := by simpa using List.find?_some found
    obtain ⟨waiting, someone⟩ := h.mem_view_iff.mp (List.mem_of_find?_eq_some found)
    rw [about] at waiting someone
    rw [if_neg (Bool.eq_false_iff.mp someone), ← waiting]
    rfl

theorem acknowledge_snd (h : Mirrors ids due o) (id : MessageId) (member : MemberId) :
    (o.acknowledge id member).2 = decide (member ∈ due id) := by
  rw [Bool.eq_iff_iff, decide_eq_true_eq, acknowledge_snd_iff h.sound]
  constructor
  · rintro ⟨i, rfl, p, hp, rfl, waits⟩
    exact (h.mem_view_iff.mp (List.mem_map_of_mem hp)).1 ▸ waits
  · intro waits
    have listed := h.mem_view_iff.mpr ⟨rfl, Roll.isEmpty_eq_false_of_mem waits⟩
    obtain ⟨p, hp, same⟩ := List.mem_map.mp listed
    obtain ⟨about, waiting⟩ := Prod.mk.inj same
    exact ⟨p.item, about, p, hp, rfl, waiting ▸ waits⟩

theorem forget_snd (h : Mirrors ids due o) (member : MemberId) :
    (o.forget member).2 = ids.countP fun id => decide (member ∈ due id) := by
  have count : (o.forget member).2 = o.view.countP fun x => decide (member ∈ x.2) := by
    rw [view, List.countP_map]
    rfl
  rw [count, h.view_eq, chart, List.countP_filter, List.countP_map]
  refine List.countP_congr fun id _ => ?_
  simp only [Function.comp_apply, Bool.and_eq_true, decide_eq_true_eq, Bool.not_eq_true']
  exact ⟨And.left, fun waits => ⟨waits, Roll.isEmpty_eq_false_of_mem waits⟩⟩

theorem put (h : Mirrors ids due o) {item : α} (recipients : List MemberId)
    (fresh : Mail.about item ∉ ids) :
    Mirrors (ids ++ [Mail.about item])
      (Function.update due (Mail.about item) (Roll.ofList recipients)) (o.put item recipients) := by
  refine ⟨?_, fun id unlisted => ?_, ?_⟩
  · rw [← List.concat_eq_append]
    exact h.distinct.concat fresh
  · obtain ⟨older, other⟩ := not_or.mp (mt List.mem_append.mpr unlisted)
    rw [Function.update_of_ne (mt List.mem_singleton.mpr other), h.unlisted id older]
  · have older : chart ids (Function.update due (Mail.about item) (Roll.ofList recipients)) =
        o.view := by
      rw [h.view_eq, chart, chart]
      congr 1
      refine List.map_congr_left fun id listed => ?_
      have other : id ≠ Mail.about item := fun same => fresh (same ▸ listed)
      rw [Function.update_of_ne other]
    rw [chart_append, older]
    obtain ⟨same, nobody⟩ | ⟨parcels, someone⟩ := o.put_eq_or item recipients
    · have none : (Roll.ofList recipients).isEmpty = true :=
        Roll.isEmpty_iff.mpr fun m listed => nobody m (Roll.mem_ofList.mp listed)
      simp [same, chart, none]
    · have some : (Roll.ofList recipients).isEmpty = false :=
        someone.elim fun _ => Roll.isEmpty_eq_false_of_mem
      simp [view, parcels, chart, some]

theorem without (h : Mirrors ids due o) {k : Outbox α} (test : MessageId → Bool) (member : MemberId)
    (left : k.parcels = Outbox.without (fun i => test (Mail.about i)) member o.parcels) :
    Mirrors ids (fun id => if test id then (due id).erase member else due id) k := by
  refine ⟨h.distinct, fun id unlisted => ?_, ?_⟩
  · have nobody := h.unlisted id unlisted
    rw [nobody, Roll.erase_eq_self (Roll.not_mem_empty member), ite_self]
  · rw [view_without left, h.view_eq, chart_struck]

theorem perform (h : Mirrors ids due o) {d : Deed α} (fresh : ∀ id ∈ d.subject?, id ∉ ids) :
    Mirrors (ids ++ d.subject?.toList) (d.update due) (o.perform d) := by
  cases d with
  | put item recipients => exact h.put recipients (fresh _ rfl)
  | acknowledge id member =>
    have erased : Deed.update due (.acknowledge id member : Deed α) =
        fun i => if decide (i = id) then (due i).erase member else due i := by
      funext i
      by_cases here : i = id
      · subst here
        simp [Deed.update]
      · simp [Deed.update, here]
    rw [erased, Deed.subject?, Option.toList_none, List.append_nil]
    exact h.without (· = id) member (acknowledge_eq h.sound id member)
  | forget member =>
    rw [Deed.subject?, Option.toList_none, List.append_nil]
    exact h.without (fun _ => true) member (forget_eq o member)

theorem run (h : Mirrors ids due o) {ds : List (Deed α)}
    (distinct : (ids ++ Deed.subjects ds).Nodup) :
    Mirrors (ids ++ Deed.subjects ds) (ds.foldl Deed.update due) (o.run ds) := by
  induction ds generalizing ids due o with
  | nil => simpa [Deed.subjects, Outbox.run] using h
  | cons d rest ih =>
    rw [Deed.subjects_cons, ← List.append_assoc] at distinct ⊢
    exact ih (h.perform (Deed.fresh_of_nodup distinct.of_append_left)) distinct

/-- What is accepted later on is outstanding now, or about a message that is still to be put. -/
theorem accepted_once (h : Mirrors ids due o) {ds : List (Deed α)}
    (distinct : (ids ++ Deed.subjects ds).Nodup) :
    (o.accepted ds).Nodup ∧ ∀ x ∈ o.accepted ds, x.1 ∈ ids → x.2 ∈ due x.1 := by
  induction ds generalizing ids due o with
  | nil => exact ⟨.nil, fun _ hx => by cases hx⟩
  | cons d rest ih =>
    rw [Deed.subjects_cons, ← List.append_assoc] at distinct
    have fresh := Deed.fresh_of_nodup distinct.of_append_left
    obtain ⟨once, outstanding⟩ := ih (h.perform fresh) distinct
    -- to be accepted later on, an acknowledgement has to outlast this deed
    have older {x : MessageId × MemberId} (later : x ∈ (o.perform d).accepted rest)
        (listed : x.1 ∈ ids) : x.2 ∈ due x.1 ∧ d.excuses x.1 x.2 = false := by
      have after := outstanding x later (List.mem_append_left _ listed)
      rcases (Deed.mem_update_iff fun i new => h.not_mem (fresh i new)).mp after with old | new
      · exact old
      · obtain ⟨item, recipients, rfl, about, -⟩ := new
        exact absurd listed (fresh _ (congrArg some about))
    rw [Outbox.accepted]
    cases d with
    | put | forget => exact ⟨once, fun x later listed => (older later listed).1⟩
    | acknowledge id member =>
      rw [accepts?, h.acknowledge_snd]
      by_cases waits : member ∈ due id
      · have listed : id ∈ ids := by
          by_contra unlisted
          exact h.not_mem unlisted waits
        have spent : (id, member) ∉ (o.perform (.acknowledge id member)).accepted rest := by
          intro again
          have unexcused := (older again listed).2
          simp [Deed.excuses] at unexcused
        rw [decide_eq_true waits]
        exact ⟨List.nodup_cons.mpr ⟨spent, once⟩,
          List.forall_mem_cons.mpr ⟨fun _ => waits, fun x later listed => (older later listed).1⟩⟩
      · rw [decide_eq_false waits]
        exact ⟨once, fun x later listed => (older later listed).1⟩

end Mirrors

/-- Of what is put about different messages an outbox is a map, and it answers what the map says. -/
theorem refines_map (ds : List (Deed α)) (distinct : (Deed.subjects ds).Nodup) :
    let o := (empty : Outbox α).run ds
    let due := Deed.outstanding ds
    (∀ id member, member ∈ due id ↔ ∃ before item recipients later,
      ds = before ++ .put item recipients :: later ∧ Mail.about item = id ∧
        member ∈ recipients ∧ ∀ d ∈ later, d.strikes item member = false) ∧
    (∀ id, o.remaining? id = if (due id).isEmpty then none else some (due id).toList) ∧
    o.inFlight = (Deed.subjects ds).filter (fun id => !(due id).isEmpty) ∧
    (∀ id member, (o.acknowledge id member).2 = decide (member ∈ due id)) ∧
    ((empty : Outbox α).accepted ds).Nodup ∧
    ∀ member, (o.forget member).2 =
      (Deed.subjects ds).countP fun id => decide (member ∈ due id) := by
  intro o due
  have mirrors : Mirrors (Deed.subjects ds) due o := Mirrors.empty.run distinct
  refine ⟨fun id member => ?_, mirrors.remaining?_eq, mirrors.inFlight_eq, mirrors.acknowledge_snd,
    (Mirrors.empty.accepted_once distinct).1, mirrors.forget_snd⟩
  rw [Deed.mem_outstanding_iff distinct]
  constructor
  · rintro ⟨item, owes, about⟩
    obtain ⟨before, recipients, later, split, listed, kept⟩ := Deed.mem_owed_iff.mp owes
    exact ⟨before, item, recipients, later, split, about, listed, kept⟩
  · rintro ⟨before, item, recipients, later, split, about, listed, kept⟩
    exact ⟨item, Deed.mem_owed_iff.mpr ⟨before, recipients, later, split, listed, kept⟩, about⟩

/-- Everyone acknowledges the first message, one of them twice. Both recipients of the second are
still outstanding, so one of them is forgotten for one message. -/
theorem refines_map_of_acknowledged :
    let ds : List (Deed Message) :=
      [.put ⟨⟨⟨1⟩, 1⟩, 5⟩ [⟨2⟩, ⟨3⟩], .acknowledge ⟨⟨1⟩, 1⟩ ⟨2⟩, .put ⟨⟨⟨1⟩, 2⟩, 6⟩ [⟨3⟩, ⟨2⟩, ⟨3⟩],
        .acknowledge ⟨⟨1⟩, 1⟩ ⟨2⟩, .acknowledge ⟨⟨1⟩, 1⟩ ⟨3⟩]
    let o := (empty : Outbox Message).run ds
    (Deed.subjects ds).Nodup ∧ o.remaining? ⟨⟨1⟩, 1⟩ = none ∧
      o.remaining? ⟨⟨1⟩, 2⟩ = some [⟨2⟩, ⟨3⟩] ∧ o.inFlight = [⟨⟨1⟩, 2⟩] ∧
      (o.acknowledge ⟨⟨1⟩, 1⟩ ⟨3⟩).2 = false ∧
      ((empty : Outbox Message).accepted ds).Nodup ∧ (o.forget ⟨3⟩).2 = 1 := by
  intro ds o
  have distinct : (Deed.subjects ds).Nodup := by decide
  obtain ⟨-, remaining, inFlight, awaited, once, forgotten⟩ := refines_map ds distinct
  refine ⟨distinct, (remaining _).trans ?_, (remaining _).trans ?_, inFlight.trans ?_,
    (awaited _ _).trans ?_, once, (forgotten _).trans ?_⟩
  all_goals decide

end Outbox

end Concord
