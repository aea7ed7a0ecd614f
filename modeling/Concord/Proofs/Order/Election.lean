import Concord.Proofs.Order.Calls
import Mathlib.Data.List.Induction

/-!
When and how a member decides on its own messages, against the history of the calls alone: it decides
in the call after which every live member has voted for the first time, and the greatest number wins,
of equal numbers the one with the smallest proposer.
-/

namespace Concord

/-- The vote on a message that a call brings. -/
def Operation.vote? (id : MessageId) : Operation → Option Stamp
  | .count p => if p.id = id then some p.stamp else none
  | _ => none

namespace Agreement

variable {a b : Agreement} {id : MessageId} {votes : List Stamp}

/-- The votes on a message that some calls bring, in order. -/
def votesOn (id : MessageId) (operations : List Operation) : List Stamp :=
  operations.filterMap (Operation.vote? id)

/-- Every live member is among the voters. -/
def Complete (a : Agreement) (votes : List Stamp) : Prop :=
  ∀ r ∈ a.live, ∃ s ∈ votes, s.proposer = r

/-- The greatest number that was voted, with the smallest of its proposers. -/
structure Elected (votes : List Stamp) (s : Stamp) : Prop where
  cast : s ∈ votes
  greatest : ∀ t ∈ votes, t.number ≤ s.number
  smallest : ∀ t ∈ votes, t.number = s.number → s.proposer.rank ≤ t.proposer.rank

/-- The order of the votes does not matter. -/
theorem Elected.eq_of_perm {others : List Stamp} {s t : Stamp} (h : Elected votes s)
    (same : others.Perm votes) (k : Elected others t) : t = s := by
  have number : t.number = s.number :=
    UInt32.le_antisymm (h.greatest t (same.mem_iff.mp k.cast))
      (k.greatest s (same.mem_iff.mpr h.cast))
  have rank : t.proposer.rank = s.proposer.rank :=
    UInt32.le_antisymm (k.smallest s (same.mem_iff.mpr h.cast) number.symm)
      (h.smallest t (same.mem_iff.mp k.cast) number)
  obtain ⟨n, ⟨r⟩⟩ := s
  obtain ⟨k, ⟨q⟩⟩ := t
  cases number
  cases rank
  rfl

/-- The open ballot of a message holds these votes. -/
def Tallies (a : Agreement) (id : MessageId) (votes : List Stamp) : Prop :=
  ∃ b, a.ballots.get? id = some b ∧ ∀ s : Stamp, b.get? s.proposer = some s.number ↔ s ∈ votes

theorem Tallies.of_due (h : a.Tallies id votes) {d : Decision} (due : a.due? id = some d) :
    a.Complete votes ∧ Elected votes d.stamp := by
  obtain ⟨b, found, holds⟩ := h
  obtain ⟨-, c, found', all, won⟩ := due?_eq_some_iff.mp due
  obtain rfl := Option.some.inj (found.symm.trans found')
  refine ⟨fun r live => ?_, (holds _).mp (Ballot.get?_winner won), fun t ht => ?_, fun t ht tie => ?_⟩
  · obtain ⟨k, cast⟩ := all r live
    exact ⟨⟨k, r⟩, (holds ⟨k, r⟩).mp cast, rfl⟩
  · exact Ballot.le_winner won ((holds t).mpr ht)
  · have beaten := Ballot.not_better_best? won (Table.mem_entries_iff.mpr ((holds t).mpr ht))
    simp only [Ballot.better, Bool.or_eq_true, decide_eq_true_eq, Bool.and_eq_true,
      beq_iff_eq, not_or, not_and] at beaten
    exact UInt32.not_lt.mp (beaten.2 tie)

theorem Tallies.exists_due (h : a.Tallies id votes) (member : a.self ∈ a.live)
    (complete : a.Complete votes) : ∃ d, a.due? id = some d := by
  obtain ⟨b, found, holds⟩ := h
  have all : ∀ r ∈ a.live, ∃ k, b.get? r = some k := by
    intro r live
    obtain ⟨s, hs, rfl⟩ := complete r live
    exact ⟨s.number, (holds s).mpr hs⟩
  obtain ⟨k, own⟩ := all a.self member
  obtain ⟨s, won⟩ := Ballot.exists_winner own
  exact ⟨⟨id, s⟩, due?_eq_some_iff.mpr ⟨rfl, b, found, all, won⟩⟩

/-- A message that was created before keeps its ballot, with one more vote if the call brings one. -/
theorem Tallies.prepared (h : a.Tallies id votes) (old : id.number ≤ a.created)
    {operation : Operation} {proposal : Option Proposal}
    (prepares : Preparation a operation proposal b)
    (new : ∀ s, operation.vote? id = some s → s.proposer ∉ votes.map Stamp.proposer) :
    b.Tallies id (votes ++ (operation.vote? id).toList) := by
  obtain ⟨c, found, holds⟩ := h
  cases prepares with
  | same other =>
    have none : operation.vote? id = none := by
      cases operation with
      | count p => exact absurd rfl (other p)
      | _ => rfl
    rw [none, Option.toList_none, List.append_nil]
    exact ⟨c, found, holds⟩
  | @drafted payload created number next_created next =>
    have other : (⟨a.self, created⟩ : MessageId) ≠ id := by
      rintro rfl
      exact UInt32.lt_irrefl _ (lt_after next_created old)
    refine ⟨c, ?_, by simpa [Operation.vote?] using holds⟩
    rw [get?_drafted, if_neg other, found]
  | answered => exact ⟨c, found, by simpa [Operation.vote?] using holds⟩
  | without => exact ⟨c, found, by simpa [Operation.vote?] using holds⟩
  | tallied p =>
    by_cases about : p.id = id
    · subst about
      have vote : (Operation.count p).vote? p.id = some p.stamp := if_pos rfl
      have absent := new p.stamp vote
      rw [vote]
      refine ⟨_, by rw [get?_tallied, if_pos rfl, found, Option.map_some], fun s => ?_⟩
      rw [Table.get?_put, Option.toList_some, List.mem_append, List.mem_singleton]
      split
      · -- whoever votes now has not voted before
        rename_i voter
        have unheard : s ∉ votes := fun hs => absent (voter ▸ List.mem_map_of_mem hs)
        obtain ⟨number, proposer⟩ := s
        obtain rfl : p.stamp.proposer = proposer := voter
        simp only [unheard, false_or, Option.some.injEq]
        constructor
        · rintro rfl
          rfl
        · intro same
          exact (congrArg Stamp.number same).symm
      · rename_i other
        have later : s ≠ p.stamp := fun same => other (congrArg Stamp.proposer same).symm
        simp only [later, or_false]
        exact holds s
    · have vote : (Operation.count p).vote? id = none := if_neg about
      rw [vote, Option.toList_none, List.append_nil]
      exact ⟨c, by rw [get?_tallied, if_neg about, found], holds⟩

/-- Where no decision is overdue, a call takes the decisions that its own part makes due. -/
theorem mem_decisions_iff (stalled : ∀ id, a.Stalled id) (operation : Operation) {d : Decision} :
    d ∈ (a.decides operation).map Settlement.decision ↔
      (a.prepared operation).due? d.id = some d := by
  rw [decisions_eq, List.mem_filterMap]
  constructor
  · rintro ⟨id, -, due⟩
    rwa [(due?_eq_some_iff.mp due).1]
  · intro due
    refine ⟨d.id, ?_, due⟩
    -- a ballot that the call leaves alone is as stalled as before
    by_contra untried
    suffices same : (a.prepared operation).due? d.id = a.due? d.id by
      cases due.symm.trans (same.trans (stalled d.id).due?)
    cases operation with
    | create payload =>
      simp only [tries, prepared] at untried ⊢
      cases hc : after? a.created with
      | none => rfl
      | some created =>
        cases hn : after? a.latest with
        | none => rfl
        | some number =>
          simp only [hc, hn, List.mem_singleton] at untried
          exact due?_congr (a := a) rfl
            ((a.get?_drafted _ number d.id).trans (if_neg (Ne.symm untried)))
    | propose m =>
      obtain ⟨-, live, -, ballots⟩ := a.propose_frame m
      exact due?_congr live (by rw [prepared, ballots])
    | count p =>
      have other : p.id ≠ d.id := fun same => untried (List.mem_singleton.mpr same.symm)
      exact due?_congr (a.tallied_frame p).2 ((a.get?_tallied p d.id).trans (if_neg other))
    | follow e => rfl
    | remove other =>
      simp only [tries, prepared] at untried due ⊢
      split
      · rfl
      · rename_i effective
        rw [if_neg effective] at untried due
        obtain ⟨-, c, open_, -⟩ := due?_eq_some_iff.mp due
        exact absurd (Table.mem_keys_iff.mpr ⟨c, open_⟩) untried

theorem due_of_mem_decides (stalled : ∀ id, a.Stalled id) {operation : Operation} {t : Settlement}
    (ht : t ∈ a.decides operation) : (a.prepared operation).due? t.id = some t.decision :=
  (mem_decisions_iff stalled operation).mp (List.mem_map_of_mem ht)

/-- The ballot of a message is closed if it is done, and holds these votes otherwise. -/
def Reflects (a : Agreement) (id : MessageId) (votes : List Stamp) (done : Prop) : Prop :=
  a.ballots.get? id = none ∧ done ∨ a.Tallies id votes ∧ ¬ done

theorem Reflects.prepared {done : Prop} (h : a.Reflects id votes done) (old : id.number ≤ a.created)
    {operation : Operation} {proposal : Option Proposal}
    (prepares : Preparation a operation proposal b)
    (new : ∀ s, operation.vote? id = some s → s.proposer ∉ votes.map Stamp.proposer) :
    b.Reflects id (votes ++ (operation.vote? id).toList) done :=
  h.imp (fun ⟨closed, done⟩ => ⟨prepares.stays_closed closed old, done⟩)
    (fun ⟨tallies, undone⟩ => ⟨tallies.prepared old prepares new, undone⟩)

/-- A call decides on a message that is not done if every live member has voted after it. -/
theorem Reflects.decided (coherent : a.Coherent) (stalled : ∀ id, a.Stalled id)
    {operation : Operation} {done : Prop} (h : (a.prepared operation).Reflects id votes done) :
    ((∃ t ∈ a.decides operation, t.id = id) ↔ (a.perform operation).Complete votes ∧ ¬ done) ∧
    (∀ t ∈ a.decides operation, t.id = id → Elected votes t.decision.stamp) ∧
    (a.perform operation).Reflects id votes (done ∨ (a.perform operation).Complete votes) := by
  have member := (coherent.prepared (a.preparation operation)).self_live
  obtain ⟨live, -, ballots⟩ := a.perform_frame operation
  rcases h with ⟨closed, past⟩ | ⟨tallies, undone⟩
  · have none : ∀ t ∈ a.decides operation, t.id ≠ id := by
      rintro t ht rfl
      obtain ⟨-, c, found, -⟩ := due?_eq_some_iff.mp (due_of_mem_decides stalled ht)
      cases closed.symm.trans found
    refine ⟨⟨fun ⟨t, ht, about⟩ => absurd about (none t ht), fun now => absurd past now.2⟩,
      fun t ht about => absurd about (none t ht), .inl ⟨?_, .inl past⟩⟩
    rw [ballots, closed, ite_self]
  · have whole : (a.perform operation).Complete votes ↔ (a.prepared operation).Complete votes := by
      rw [Complete, Complete, live]
    have decides : (∃ t ∈ a.decides operation, t.id = id) ↔
        (a.perform operation).Complete votes := by
      rw [whole]
      constructor
      · rintro ⟨t, ht, rfl⟩
        exact (tallies.of_due (due_of_mem_decides stalled ht)).1
      · intro complete
        obtain ⟨d, due⟩ := tallies.exists_due member complete
        obtain rfl := (due?_eq_some_iff.mp due).1
        obtain ⟨t, ht, rfl⟩ := List.mem_map.mp ((mem_decisions_iff stalled operation).mpr due)
        exact ⟨t, ht, rfl⟩
    refine ⟨by rw [decides, and_iff_left undone], fun t ht about => ?_, ?_⟩
    · exact (tallies.of_due (about ▸ due_of_mem_decides stalled ht)).2
    · by_cases listed : id ∈ (a.decides operation).map Settlement.id
      · refine .inl ⟨(ballots id).trans (if_pos listed), .inr ?_⟩
        exact decides.mp (List.mem_map.mp listed)
      · obtain ⟨b, found, holds⟩ := tallies
        refine .inr ⟨⟨b, ((ballots id).trans (if_neg listed)).trans found, holds⟩, ?_⟩
        rintro (past | complete)
        · exact undone past
        · exact listed (List.mem_map.mpr (decides.mpr complete))

/-- At some moment of these calls, the first of which creates the message, every live member had
voted. -/
def WasComplete (a : Agreement) (own : Stamp) (id : MessageId) (calls : List Operation) : Prop :=
  ∃ moment, moment ≠ [] ∧ moment <+: calls ∧
    (a.run moment).Complete (own :: votesOn id moment)

theorem wasComplete_concat {own : Stamp} {calls : List Operation} {last : Operation} :
    a.WasComplete own id (calls ++ [last]) ↔ a.WasComplete own id calls ∨
      (a.run (calls ++ [last])).Complete (own :: votesOn id (calls ++ [last])) := by
  constructor
  · rintro ⟨moment, begun, early, complete⟩
    rcases List.prefix_concat_iff.mp early with rfl | earlier
    · exact .inr complete
    · exact .inl ⟨moment, begun, earlier, complete⟩
  · rintro (⟨moment, begun, early, complete⟩ | now)
    · exact ⟨moment, begun, early.trans (List.prefix_append _ _), complete⟩
    · exact ⟨calls ++ [last], by simp, List.prefix_rfl, now⟩

theorem votesOn_concat (id : MessageId) (calls : List Operation) (last : Operation) :
    votesOn id (calls ++ [last]) = votesOn id calls ++ (last.vote? id).toList := by
  rw [votesOn, List.filterMap_append]
  cases vote : last.vote? id <;> simp [votesOn, vote]

/-- A draft starts with the vote of its own member. -/
theorem tallies_drafted (a : Agreement) (m : Message) (number : UInt32) :
    (a.drafted m number).Tallies m.id [⟨number, a.self⟩] := by
  refine ⟨_, (a.get?_drafted m number m.id).trans (if_pos rfl), fun s => ?_⟩
  obtain ⟨k, proposer⟩ := s
  rw [Table.get?_put, List.mem_singleton]
  split
  · rename_i own
    simp [own, eq_comm]
  · rename_i other
    simp [Ne.symm other, Table.get?, Table.empty]

/-- The history of an own message from the call on that creates it, seen right before the decisions
of the last call: its ballot holds the votes that came, unless every live member had voted before. -/
theorem reflects_history (coherent : ∀ calls, (a.run calls).Coherent)
    (stalled : ∀ calls id, (a.run calls).Stalled id) {payload number : UInt32} {m : Message}
    {s : Option Settlement} (made : a.create payload = .ok (b, m, s))
    (next : after? a.latest = some number) {after earlier : List Operation} {last : Operation}
    (history : .create payload :: after = earlier ++ [last])
    (once : (a.self :: (votesOn m.id after).map Stamp.proposer).Nodup) :
    ((a.run earlier).prepared last).Reflects m.id (⟨number, a.self⟩ :: votesOn m.id after)
      (a.WasComplete ⟨number, a.self⟩ m.id earlier) := by
  induction after using List.reverseRecOn generalizing earlier last with
  | nil =>
    have alone : [] ++ [.create payload] = earlier ++ [last] := history
    obtain ⟨rfl, same⟩ := List.append_inj' alone rfl
    cases same
    obtain ⟨created, k, next_created, next', rfl, -⟩ := create_eq_ok made
    obtain rfl := Option.some.inj (next.symm.trans next')
    have drafted : a.prepared (.create payload) =
        a.drafted ⟨⟨a.self, created⟩, payload⟩ number := by
      simp only [prepared, next_created, next]
    refine .inr ⟨?_, ?_⟩
    · change (a.prepared (.create payload)).Tallies _ _
      rw [drafted]
      exact a.tallies_drafted ⟨⟨a.self, created⟩, payload⟩ number
    · rintro ⟨moment, begun, early, -⟩
      exact begun (List.prefix_nil.mp early)
  | append_singleton xs x ih =>
    rw [← List.cons_append] at history
    obtain ⟨rfl, same⟩ := List.append_inj' history rfl
    cases same
    rw [votesOn_concat, List.map_append, ← List.cons_append] at once
    obtain ⟨earlier, last, split⟩ : ∃ calls call, .create payload :: xs = calls ++ [call] :=
      ⟨_, _, (List.dropLast_append_getLast (List.cons_ne_nil _ _)).symm⟩
    -- what the call before left is what this one finds
    have before := ih split (List.nodup_append.mp once).1
    have standing := (before.decided (coherent earlier) (stalled earlier)).2.2
    have done : a.WasComplete ⟨number, a.self⟩ m.id (.create payload :: xs) ↔
        a.WasComplete ⟨number, a.self⟩ m.id earlier ∨
          (a.run (.create payload :: xs)).Complete (⟨number, a.self⟩ :: votesOn m.id xs) := by
      conv_lhs => rw [split, wasComplete_concat, ← split]
      rfl
    rw [← run_concat, ← split, ← done] at standing
    have old : m.id.number ≤ (a.run (.create payload :: xs)).created := by
      have first : a.perform (.create payload) = b := by simp only [perform, tryCreate_eq, made]
      have later := created_le_run (a.perform (.create payload)) xs
      rw [first, (create_frame made).2.2.1] at later
      rwa [run, List.foldl_cons, first]
    rw [votesOn_concat, ← List.cons_append]
    refine standing.prepared old (preparation _ x) fun t vote heard => ?_
    rw [vote] at once
    exact (List.nodup_append.mp once).2.2 _ heard _ (List.mem_singleton.mpr rfl) rfl

/-- A member decides on a message of its own in the call after which, for the first time since the
message was created, every live member has voted on it, and in no other call. The greatest number
wins, of equal ones that of the smallest member, and it counts no matter who was removed since. So the
decision does not depend on the order in which the votes come, nor on what is called besides. -/
theorem decided_when_complete {self : MemberId} {members : List MemberId}
    {before after earlier : List Operation} {last : Operation} {payload : UInt32} {a b : Agreement}
    {m : Message} {s : Option Settlement} (reached : a = (start self members).run before)
    (made : a.create payload = .ok (b, m, s))
    (history : .create payload :: after = earlier ++ [last])
    (once : (self :: (votesOn m.id after).map Stamp.proposer).Nodup) :
    ∃ own : Stamp, own.proposer = self ∧ b.ownNumber? m s = some own.number ∧
      ((∃ t ∈ (a.run earlier).decides last, t.id = m.id) ↔
        ((a.run earlier).perform last).Complete (own :: votesOn m.id after) ∧
          ¬ a.WasComplete own m.id earlier) ∧
      (((a.run earlier).decides last).map Settlement.id).Nodup ∧
      ∀ t ∈ (a.run earlier).decides last, t.id = m.id →
        Elected (own :: votesOn m.id after) t.decision.stamp ∧
        ∀ after' earlier' last', .create payload :: after' = earlier' ++ [last'] →
          (votesOn m.id after').Perm (votesOn m.id after) →
          ∀ t' ∈ (a.run earlier').decides last', t'.id = m.id → t'.decision = t.decision := by
  have standing : a.Coherent ∧ ∀ id, a.Stalled id := by
    rw [reached]
    exact ⟨(Coherent.start self members).run before,
      stalled_run (.start self members) (stalled_start self members) before⟩
  have coherent := standing.1.run
  have stalled := stalled_run standing.1 standing.2
  obtain rfl : a.self = self := reached ▸ run_self (start self members) before
  obtain ⟨created, number, -, next, rfl, drafted⟩ := create_eq_ok made
  obtain rfl : b = _ := congrArg Prod.fst drafted
  obtain rfl : s = _ := congrArg Prod.snd drafted
  have elect {after earlier last} (history : .create payload :: after = earlier ++ [last]) once :=
    (reflects_history coherent stalled made next history once).decided (coherent earlier)
      (stalled earlier)
  obtain ⟨decides, elected, -⟩ := elect history once
  refine ⟨⟨number, a.self⟩, rfl, a.ownNumber?_drafted _ number, decides,
    decides_distinct (coherent earlier) last, fun t ht about => ⟨elected t ht about, ?_⟩⟩
  intro after' earlier' last' history' same t' ht' about'
  have once' := ((same.map Stamp.proposer).cons a.self).nodup_iff.mpr once
  have stamp : t'.decision.stamp = t.decision.stamp :=
    (elected t ht about).eq_of_perm (same.cons _) ((elect history' once').2.1 t' ht' about')
  have id : t'.decision.id = t.decision.id := about'.trans about.symm
  exact congrArg₂ Decision.mk id stamp

/-- Two members propose the same greatest number, and the smaller one is removed before the last vote
is given up: its number wins, in whatever order the votes come. -/
theorem decided_when_complete_of_removed :
    let a := (start ⟨1⟩ [⟨1⟩, ⟨2⟩, ⟨3⟩, ⟨4⟩]).run [.propose ⟨⟨⟨2⟩, 1⟩, 9⟩]
    let m : Message := ⟨⟨⟨1⟩, 1⟩, 7⟩
    let after : List Operation :=
      [.count ⟨m.id, ⟨5, ⟨4⟩⟩⟩, .count ⟨m.id, ⟨5, ⟨2⟩⟩⟩, .remove ⟨2⟩, .remove ⟨3⟩]
    let earlier := .create 7 :: after.take 3
    (∃ b s, a.create 7 = .ok (b, m, s)) ∧
    ((⟨1⟩ : MemberId) :: (votesOn m.id after).map Stamp.proposer).Nodup ∧
    (∃ t ∈ (a.run earlier).decides (.remove ⟨3⟩), t.decision = ⟨m.id, ⟨5, ⟨2⟩⟩⟩) ∧
    ∀ after' earlier' last', .create 7 :: after' = earlier' ++ [last'] →
      (votesOn m.id after').Perm (votesOn m.id after) →
      ∀ t' ∈ (a.run earlier').decides last', t'.id = m.id → t'.decision = ⟨m.id, ⟨5, ⟨2⟩⟩⟩ := by
  intro a m after earlier
  have made : a.create 7 = .ok (((a.drafted m 2).decide? m.id).1, m,
      ((a.drafted m 2).decide? m.id).2) := rfl
  have once : ((⟨1⟩ : MemberId) :: (votesOn m.id after).map Stamp.proposer).Nodup := by decide
  have decides : ∃ t ∈ (a.run earlier).decides (.remove ⟨3⟩), t.decision = ⟨m.id, ⟨5, ⟨2⟩⟩⟩ := by
    decide +kernel
  refine ⟨⟨_, _, made⟩, once, decides, ?_⟩
  obtain ⟨t, ht, decision⟩ := decides
  have about : t.id = m.id := congrArg Decision.id decision
  have history : .create 7 :: after = earlier ++ [.remove ⟨3⟩] := rfl
  obtain ⟨own, -, -, -, -, order⟩ := decided_when_complete rfl made history once
  exact decision ▸ (order t ht about).2

end Agreement

end Concord
