import Concord.Proofs.Order.Lacking

/-!
What it means to decide: the ballot of the message was open, and from then on there is none. So no
message is decided twice, however many ballots a call completes.
-/

namespace Concord

def Settlement.id (s : Settlement) : MessageId := s.decision.id

namespace Agreement

variable {a a' : Agreement} {settlements : List Settlement}

/-- The second agreement comes from the first one by these decisions alone. -/
structure Settles (a a' : Agreement) (settlements : List Settlement) : Prop where
  self : a'.self = a.self
  created : a'.created = a.created
  stays_closed : ∀ id, a.ballots.get? id = none → a'.ballots.get? id = none
  opened : ∀ s ∈ settlements, a.ballots.get? s.id ≠ none
  closes : ∀ s ∈ settlements, a'.ballots.get? s.id = none
  distinct : (settlements.map Settlement.id).Nodup

theorem settles_nothing (a : Agreement) : Settles a a [] where
  self := rfl
  created := rfl
  stays_closed _ closed := closed
  opened _ hs := by cases hs
  closes _ hs := by cases hs
  distinct := .nil

theorem settles_decide? (member : a.self ∈ a.live) (id : MessageId) :
    Settles a (a.decide? id).1 (a.decide? id).2.toList := by
  rcases a.decide?_cases member id with ⟨same, -⟩ | ⟨b, s, found, -, -, result⟩
  · rw [same]
    exact settles_nothing a
  · obtain ⟨self, -, created, ballots⟩ := (a.closed id).adopt_frame ⟨id, s⟩
    have erased : ∀ k, (a.decide? id).1.ballots.get? k =
        if id = k then none else a.ballots.get? k := by
      intro k
      rw [result, ballots]
      exact Table.get?_erase _ _ _
    rw [result] at erased ⊢
    constructor
    case self => exact self
    case created => exact created
    case stays_closed =>
      intro k closed
      rw [erased, closed, ite_self]
    case opened =>
      intro x hx
      rw [List.mem_singleton.mp hx]
      exact fun none => Option.some_ne_none b (found.symm.trans none)
    case closes =>
      intro x hx
      rw [List.mem_singleton.mp hx, erased]
      exact if_pos rfl
    case distinct => exact List.nodup_singleton _

/-- What was decided has no ballot any more, so what comes later is about other messages. -/
theorem Settles.trans {a'' : Agreement} {more : List Settlement} (first : Settles a a' settlements)
    (later : Settles a' a'' more) : Settles a a'' (settlements ++ more) where
  self := later.self.trans first.self
  created := later.created.trans first.created
  stays_closed id closed := later.stays_closed id (first.stays_closed id closed)
  opened s hs closed := by
    rcases List.mem_append.mp hs with old | new
    · exact first.opened s old closed
    · exact later.opened s new (first.stays_closed _ closed)
  closes s hs := by
    rcases List.mem_append.mp hs with old | new
    · exact later.stays_closed _ (first.closes s old)
    · exact later.closes s new
  distinct := by
    rw [List.map_append]
    refine List.nodup_append.mpr ⟨first.distinct, later.distinct, fun id old k new same => ?_⟩
    obtain ⟨s, hs, rfl⟩ := List.mem_map.mp old
    obtain ⟨x, hx, rfl⟩ := List.mem_map.mp new
    exact later.opened x hx (same ▸ first.closes s hs)

theorem settles_decideAll (member : a.self ∈ a.live) (ids : List MessageId) :
    Settles a (a.decideAll ids).1 (a.decideAll ids).2 := by
  induction ids generalizing a with
  | nil => exact settles_nothing a
  | cons id rest ih =>
    obtain ⟨self, live⟩ := a.decide?_frame id
    have stays : (a.decide? id).1.self ∈ (a.decide? id).1.live := by
      rw [self, live]
      exact member
    exact (settles_decide? member id).trans (ih stays)

end Agreement

end Concord
