import Concord.Proofs.Order.Deliveries
import Concord.Proofs.Order.Settling

/-!
A call taken apart. First it does what concerns itself: it takes a message in, counts a proposal or
gives up a member. Then it adopts decisions one after the other: the one that it was given, or those
that the ballots call for now.
-/

namespace Concord.Agreement

/-- The decision on an own message whose ballot is complete. -/
def due? (a : Agreement) (id : MessageId) : Option Decision :=
  match a.ballots.get? id with
  | none => none
  | some ballot => if a.complete ballot then ballot.winner?.map (⟨id, ·⟩) else none

def adoptAll (a : Agreement) : List Decision → Agreement × List Message
  | [] => (a, [])
  | d :: rest =>
    let (a, delivered) := a.adopt d
    let (a, more) := a.adoptAll rest
    (a, delivered ++ more)

/-- Closes the ballots of messages that are decided. -/
def closeAll (a : Agreement) (ds : List Decision) : Agreement :=
  ds.foldl (fun a d => a.closed d.id) a

/-- Takes decisions: closes their ballots and adopts them. -/
def conclude (a : Agreement) (ds : List Decision) : Agreement × List Message :=
  (a.closeAll ds).adoptAll ds

theorem due?_eq_some_iff {a : Agreement} {id : MessageId} {d : Decision} :
    a.due? id = some d ↔ d.id = id ∧ ∃ b, a.ballots.get? id = some b ∧
      (∀ r ∈ a.live, ∃ k, b.get? r = some k) ∧ b.winner? = some d.stamp := by
  unfold due?
  cases found : a.ballots.get? id with
  | none => simp
  | some b =>
    by_cases whole : a.complete b = true
    · have all := complete_iff.mp whole
      simp only [if_pos whole, Option.map_eq_some_iff, Option.some.injEq, exists_eq_left']
      constructor
      · rintro ⟨s, won, rfl⟩
        exact ⟨rfl, all, won⟩
      · rintro ⟨rfl, -, won⟩
        exact ⟨d.stamp, won, rfl⟩
    · simp only [Option.some.injEq, exists_eq_left', ← complete_iff, whole]
      simp

/-- Which decision is due depends on the ballot and on who is live. -/
theorem due?_congr {a a' : Agreement} {id : MessageId} (live : a'.live = a.live)
    (ballot : a'.ballots.get? id = a.ballots.get? id) : a'.due? id = a.due? id := by
  unfold due? complete
  rw [live, ballot]

theorem Stalled.due? {a : Agreement} {id : MessageId} (h : a.Stalled id) : a.due? id = none := by
  cases due : a.due? id with
  | none => rfl
  | some d =>
    obtain ⟨-, b, found, all, -⟩ := due?_eq_some_iff.mp due
    obtain ⟨r, live, absent⟩ := h b found
    obtain ⟨k, cast⟩ := all r live
    cases absent.symm.trans cast

theorem decide?_eq (a : Agreement) (id : MessageId) : a.decide? id =
    match a.due? id with
    | none => (a, none)
    | some d => (((a.closed id).adopt d).1, some ⟨d, ((a.closed id).adopt d).2⟩) := by
  unfold decide? due?
  cases a.ballots.get? id with
  | none => rfl
  | some b =>
    dsimp only
    split
    · cases b.winner? with
      | none => rfl
      | some s => rfl
    · rfl

theorem recordAll_with (a : Agreement) (live : Roll MemberId) (ballots : Table MessageId Ballot)
    (ms : List Message) :
    { a with live, ballots }.recordAll ms = { a.recordAll ms with live, ballots } := by
  unfold recordAll
  induction ms generalizing a with
  | nil => rfl
  | cons m rest ih => exact ih (a.recordDelivery m)

/-- Adopting a decision looks neither at the ballots nor at who is live. -/
theorem adopt_with (a : Agreement) (live : Roll MemberId) (ballots : Table MessageId Ballot)
    (d : Decision) : { a with live, ballots }.adopt d =
      ({ (a.adopt d).1 with live, ballots }, (a.adopt d).2) := by
  unfold adopt
  dsimp only
  split
  · rename_i queue _
    have records := recordAll_with
      { a with latest := max a.latest d.stamp.number, queue := queue.release.1 } live ballots
      queue.release.2
    exact congrArg (·, queue.release.2) records
  · rfl

theorem adopt_closed (a : Agreement) (id : MessageId) (d : Decision) :
    (a.closed id).adopt d = ((a.adopt d).1.closed id, (a.adopt d).2) := by
  obtain ⟨-, live, -, ballots⟩ := a.adopt_frame d
  refine (a.adopt_with a.live (a.ballots.erase id) d).trans ?_
  rw [closed, ballots, ← live]

theorem adopt_without (a : Agreement) (other : MemberId) (d : Decision) :
    (a.without other).adopt d = ((a.adopt d).1.without other, (a.adopt d).2) := by
  obtain ⟨-, live, -, ballots⟩ := a.adopt_frame d
  refine (a.adopt_with (a.live.erase other) a.ballots d).trans ?_
  rw [without, live, ← ballots]

/-- What goes past one adoption goes past any number of them. -/
theorem adoptAll_past {f : Agreement → Agreement}
    (past : ∀ a d, (f a).adopt d = (f (a.adopt d).1, (a.adopt d).2)) (a : Agreement)
    (ds : List Decision) : (f a).adoptAll ds = (f (a.adoptAll ds).1, (a.adoptAll ds).2) := by
  induction ds generalizing a with
  | nil => rfl
  | cons d rest ih => simp only [adoptAll, past, ih]

theorem adopt_closeAll (ds : List Decision) (a : Agreement) (d : Decision) :
    (a.closeAll ds).adopt d = ((a.adopt d).1.closeAll ds, (a.adopt d).2) := by
  unfold closeAll
  induction ds generalizing a with
  | nil => rfl
  | cons e rest ih => rw [List.foldl_cons, ih, adopt_closed, List.foldl_cons]

theorem adoptAll_append (a : Agreement) (ds es : List Decision) : a.adoptAll (ds ++ es) =
    (((a.adoptAll ds).1.adoptAll es).1, (a.adoptAll ds).2 ++ ((a.adoptAll ds).1.adoptAll es).2) := by
  induction ds generalizing a with
  | nil => rfl
  | cons d rest ih => simp only [List.cons_append, adoptAll, ih, List.append_assoc]

theorem adoptAll_frame (a : Agreement) (ds : List Decision) :
    (a.adoptAll ds).1.self = a.self ∧ (a.adoptAll ds).1.live = a.live ∧
    (a.adoptAll ds).1.created = a.created ∧ (a.adoptAll ds).1.ballots = a.ballots := by
  induction ds generalizing a with
  | nil => exact ⟨rfl, rfl, rfl, rfl⟩
  | cons d rest ih =>
    obtain ⟨self, live, created, ballots⟩ := ih (a.adopt d).1
    obtain ⟨self', live', created', ballots'⟩ := a.adopt_frame d
    exact ⟨self.trans self', live.trans live', created.trans created', ballots.trans ballots'⟩

theorem adoptAll_latest (a : Agreement) (ds : List Decision) :
    (a.adoptAll ds).1.latest = ds.foldl (fun n d => max n d.stamp.number) a.latest := by
  induction ds generalizing a with
  | nil => rfl
  | cons d rest ih =>
    rw [List.foldl_cons, ← adopt_latest]
    exact ih (a.adopt d).1

/-- Closing ballots changes nothing else. -/
theorem closeAll_eq (a : Agreement) (ds : List Decision) :
    a.closeAll ds = { a with ballots := (a.closeAll ds).ballots } := by
  unfold closeAll
  induction ds generalizing a with
  | nil => rfl
  | cons d rest ih => exact ih (a.closed d.id)

theorem get?_closeAll (a : Agreement) (ds : List Decision) (id : MessageId) :
    (a.closeAll ds).ballots.get? id =
      if id ∈ ds.map Decision.id then none else a.ballots.get? id := by
  unfold closeAll
  induction ds generalizing a with
  | nil => simp
  | cons d rest ih =>
    rw [List.foldl_cons, ih, closed, Table.get?_erase]
    by_cases here : d.id = id
    · simp [here]
    · simp [here, Ne.symm here]

theorem Coherent.closeAll {a : Agreement} (h : a.Coherent) (ds : List Decision) :
    (a.closeAll ds).Coherent := by
  unfold Agreement.closeAll
  induction ds generalizing a with
  | nil => exact h
  | cons d rest ih => exact ih (h.closed d.id)

/-- Trying several ballots takes the decisions that are due, in their order: deciding one message
makes no other decision due. -/
theorem decideAll_eq (a : Agreement) {ids : List MessageId} (distinct : ids.Nodup) :
    (a.decideAll ids).1 = (a.conclude (ids.filterMap a.due?)).1 ∧
    (a.decideAll ids).2.map Settlement.decision = ids.filterMap a.due? ∧
    (a.decideAll ids).2.flatMap Settlement.delivered = (a.conclude (ids.filterMap a.due?)).2 := by
  induction ids generalizing a with
  | nil => exact ⟨rfl, rfl, rfl⟩
  | cons id rest ih =>
    obtain ⟨new, distinct⟩ := List.nodup_cons.mp distinct
    cases due : a.due? id with
    | none =>
      have decided := a.decide?_eq id
      rw [due] at decided
      simpa [decideAll, decided, due] using ih a distinct
    | some d =>
      have about : d.id = id := (due?_eq_some_iff.mp due).1
      have decided := a.decide?_eq id
      rw [due, ← about] at decided
      obtain ⟨-, live, -, ballots⟩ := (a.closed d.id).adopt_frame d
      have others : rest.filterMap ((a.closed d.id).adopt d).1.due? = rest.filterMap a.due? := by
        apply List.filterMap_congr
        intro k hk
        have other : d.id ≠ k := fun same => new (about ▸ same ▸ hk)
        apply due?_congr (a := a) live
        rw [ballots, closed, Table.get?_erase, if_neg other]
      obtain ⟨state, decisions, delivered⟩ := ih ((a.closed d.id).adopt d).1 distinct
      rw [others] at state decisions delivered
      -- the ballots that are closed later may as well be closed at once
      have closes : a.closeAll (d :: rest.filterMap a.due?) =
          (a.closed d.id).closeAll (rest.filterMap a.due?) := rfl
      rw [List.filterMap_cons, due]
      simp only [decideAll, ← about, decided, conclude, adoptAll, closes, adopt_closeAll]
      exact ⟨state, congrArg (d :: ·) decisions,
        congrArg (((a.closed d.id).adopt d).2 ++ ·) delivered⟩

/-- The decisions that a call takes itself. -/
def decides (a : Agreement) : Operation → List Settlement
  | .create payload =>
    match a.create payload with
    | .error _ => []
    | .ok (_, _, settlement) => settlement.toList
  | .propose _ => []
  | .count p => (a.count p).2.toList
  | .follow _ => []
  | .remove member => (a.remove member).2

/-- All decisions that a call adopts: the one that it is given, or those that it takes. -/
def rules (a : Agreement) : Operation → List Decision
  | .follow d => [d]
  | operation => (a.decides operation).map Settlement.decision

/-- Everything that some calls adopt, in order. -/
def rulings (a : Agreement) : List Operation → List Decision
  | [] => []
  | operation :: rest => a.rules operation ++ (a.perform operation).rulings rest

theorem run_append (a : Agreement) (calls more : List Operation) :
    a.run (calls ++ more) = (a.run calls).run more := by
  rw [run, run, run, List.foldl_append]

theorem run_concat (a : Agreement) (calls : List Operation) (last : Operation) :
    a.run (calls ++ [last]) = (a.run calls).perform last := a.run_append calls [last]

theorem deliveries_append (a : Agreement) (calls more : List Operation) :
    a.deliveries (calls ++ more) = a.deliveries calls ++ (a.run calls).deliveries more := by
  induction calls generalizing a with
  | nil => rfl
  | cons call rest ih => rw [List.cons_append, deliveries, ih, deliveries, List.append_assoc, run,
      run, List.foldl_cons]

theorem rulings_append (a : Agreement) (calls more : List Operation) :
    a.rulings (calls ++ more) = a.rulings calls ++ (a.run calls).rulings more := by
  induction calls generalizing a with
  | nil => rfl
  | cons call rest ih => rw [List.cons_append, rulings, ih, rulings, List.append_assoc, run, run,
      List.foldl_cons]

/-- The agreement once a call has done what concerns itself. -/
def prepared (a : Agreement) : Operation → Agreement
  | .create payload =>
    match after? a.created, after? a.latest with
    | some created, some number => a.drafted ⟨⟨a.self, created⟩, payload⟩ number
    | _, _ => a
  | .propose m => (a.propose m).1
  | .count p => a.tallied p
  | .follow _ => a
  | .remove other => if other = a.self ∨ other ∉ a.live then a else a.without other

/-- The messages whose ballots a call tries, in order. -/
def tries (a : Agreement) : Operation → List MessageId
  | .create _ =>
    match after? a.created, after? a.latest with
    | some created, some _ => [⟨a.self, created⟩]
    | _, _ => []
  | .propose _ => []
  | .count p => [p.id]
  | .follow _ => []
  | .remove other => if other = a.self ∨ other ∉ a.live then [] else a.ballots.keys

theorem tries_distinct (a : Agreement) (operation : Operation) : (a.tries operation).Nodup := by
  unfold tries
  split
  · split
    · exact List.nodup_singleton _
    · exact .nil
  · exact .nil
  · exact List.nodup_singleton _
  · exact .nil
  · split
    · exact .nil
    · exact a.ballots.distinct

/-- A call that is given no decision tries ballots after its own part. -/
theorem perform_decideAll (a : Agreement) {operation : Operation}
    (free : ∀ d, operation ≠ .follow d) :
    a.perform operation = ((a.prepared operation).decideAll (a.tries operation)).1 ∧
    a.decides operation = ((a.prepared operation).decideAll (a.tries operation)).2 ∧
    a.delivers operation =
      ((a.prepared operation).decideAll (a.tries operation)).2.flatMap Settlement.delivered := by
  cases operation with
  | create payload =>
    simp only [perform, decides, delivers, prepared, tries, tryCreate_eq, create_eq]
    cases after? a.created with
    | none => exact ⟨rfl, rfl, rfl⟩
    | some created =>
      cases after? a.latest with
      | none => exact ⟨rfl, rfl, rfl⟩
      | some number => simp [decideAll]
  | propose m => exact ⟨rfl, rfl, rfl⟩
  | count p => simp [perform, decides, delivers, prepared, tries, count_eq, decideAll]
  | follow d => exact absurd rfl (free d)
  | remove other =>
    by_cases idle : other = a.self ∨ other ∉ a.live
    · simp [perform, decides, delivers, prepared, tries, remove, idle, decideAll]
    · simp [perform, decides, delivers, prepared, tries, remove, idle, without]

/-- The state in which a call adopts its decisions. -/
def ready (a : Agreement) (operation : Operation) : Agreement :=
  (a.prepared operation).closeAll ((a.decides operation).map Settlement.decision)

/-- Every call makes itself ready and adopts its decisions one after the other. -/
theorem perform_eq (a : Agreement) (operation : Operation) :
    a.perform operation = ((a.ready operation).adoptAll (a.rules operation)).1 ∧
    a.delivers operation = ((a.ready operation).adoptAll (a.rules operation)).2 := by
  by_cases given : ∃ d, operation = .follow d
  · obtain ⟨d, rfl⟩ := given
    exact ⟨rfl, (List.append_nil _).symm⟩
  · have free : ∀ d, operation ≠ .follow d := fun d same => given ⟨d, same⟩
    have rules : a.rules operation = (a.decides operation).map Settlement.decision := by
      cases operation <;> first | rfl | exact absurd rfl (free _)
    obtain ⟨state, decides, delivers⟩ := a.perform_decideAll free
    obtain ⟨state', decisions, delivers'⟩ :=
      (a.prepared operation).decideAll_eq (a.tries_distinct operation)
    rw [ready, rules, state, delivers, decides, decisions, state', delivers']
    exact ⟨rfl, rfl⟩

/-- A call takes the decisions that are due among the ballots it tries. -/
theorem decisions_eq (a : Agreement) (operation : Operation) :
    (a.decides operation).map Settlement.decision =
      (a.tries operation).filterMap (a.prepared operation).due? := by
  by_cases given : ∃ d, operation = .follow d
  · obtain ⟨d, rfl⟩ := given
    rfl
  · obtain ⟨-, decides, -⟩ := a.perform_decideAll fun d same => given ⟨d, same⟩
    obtain ⟨-, decisions, -⟩ :=
      (a.prepared operation).decideAll_eq (a.tries_distinct operation)
    rw [decides, decisions]

theorem get?_drafted (a : Agreement) (m : Message) (number : UInt32) (id : MessageId) :
    (a.drafted m number).ballots.get? id =
      if m.id = id then some (Table.empty.put a.self number) else a.ballots.get? id :=
  Table.get?_put _ _ _ _

/-- Counting a proposal changes the ballots alone. -/
theorem tallied_with (a : Agreement) (p : Proposal) :
    a.tallied p = { a with ballots := (a.tallied p).ballots } := by
  unfold tallied
  split <;> rfl

theorem get?_tallied (a : Agreement) (p : Proposal) (id : MessageId) :
    (a.tallied p).ballots.get? id =
      if p.id = id then (a.ballots.get? id).map (·.put p.stamp.proposer p.stamp.number)
      else a.ballots.get? id := by
  unfold tallied
  by_cases about : p.id = id
  · subst about
    rw [if_pos rfl]
    cases found : a.ballots.get? p.id with
    | none => exact found
    | some c => exact (Table.get?_put _ _ _ _).trans (if_pos rfl)
  · rw [if_neg about]
    split
    · rfl
    · exact (Table.get?_put _ _ _ _).trans (if_neg about)

/-- The number that a member proposes for a new message of its own, as the ballot of the message
shows it, or the decision if there is one at once. -/
def ownNumber? (a : Agreement) (m : Message) : Option Settlement → Option UInt32
  | some settlement => some settlement.decision.stamp.number
  | none => (a.ballots.get? m.id).bind (·.get? a.self)

/-- The proposal that a call makes anew, for an own message or in the first answer to another one. -/
def assigns? (a : Agreement) : Operation → Option Proposal
  | .create payload =>
    match a.create payload with
    | .error _ => none
    | .ok (b, m, settlement) =>
      (b.ownNumber? m settlement).map fun number => ⟨m.id, ⟨number, a.self⟩⟩
  | .propose m => if a.answers.contains m.id then none else (a.propose m).2
  | _ => none

/-- All proposals that some calls make anew, in order. -/
def assignments (a : Agreement) : List Operation → List Proposal
  | [] => []
  | operation :: rest => (a.assigns? operation).toList ++ (a.perform operation).assignments rest

theorem ownNumber?_drafted (a : Agreement) (m : Message) (number : UInt32) :
    ((a.drafted m number).decide? m.id).1.ownNumber? m ((a.drafted m number).decide? m.id).2 =
      some number := by
  have ballot := (a.get?_drafted m number m.id).trans (if_pos rfl)
  have own : (Table.empty.put a.self number : Ballot).get? a.self = some number :=
    (Table.get?_put _ _ _ _).trans (if_pos rfl)
  rw [decide?_eq]
  cases due : (a.drafted m number).due? m.id with
  | none =>
    dsimp only [ownNumber?]
    rw [ballot]
    exact own
  | some d =>
    -- the only proposal so far is the own one, so it wins
    obtain ⟨-, b, found, -, won⟩ := due?_eq_some_iff.mp due
    obtain rfl := Option.some.inj (ballot.symm.trans found)
    have proposed := Ballot.get?_winner won
    rw [Table.get?_put] at proposed
    split at proposed
    · exact congrArg some (Option.some.inj proposed).symm
    · cases proposed

theorem assigns?_create {a : Agreement} {created number : UInt32}
    (next_created : after? a.created = some created) (next : after? a.latest = some number)
    (payload : UInt32) :
    a.assigns? (.create payload) = some ⟨⟨a.self, created⟩, ⟨number, a.self⟩⟩ := by
  have own := a.ownNumber?_drafted ⟨⟨a.self, created⟩, payload⟩ number
  simp only [assigns?, create_eq, next_created, next]
  dsimp only at own ⊢
  rw [own]
  rfl

theorem assigns?_propose {a : Agreement} {m : Message} (unanswered : a.answers.get? m.id = none) :
    a.assigns? (.propose m) = (a.propose m).2 := by
  refine if_neg ?_
  rw [Table.contains_iff, unanswered]
  rintro ⟨x, found⟩
  cases found

/-- What a call does by itself, and the proposal that it makes. -/
inductive Preparation (a : Agreement) : Operation → Option Proposal → Agreement → Prop
  | same {operation : Operation} (other : ∀ p, operation ≠ .count p) :
      Preparation a operation none a
  | drafted {payload created number : UInt32} (next_created : after? a.created = some created)
      (next : after? a.latest = some number) :
      Preparation a (.create payload) (some ⟨⟨a.self, created⟩, ⟨number, a.self⟩⟩)
        (a.drafted ⟨⟨a.self, created⟩, payload⟩ number)
  | answered {m : Message} {number : UInt32} (foreign : m.id.sender ≠ a.self)
      (unanswered : a.answers.get? m.id = none) (undelivered : a.hasDelivered m.id = false)
      (next : after? a.latest = some number) :
      Preparation a (.propose m) (some ⟨m.id, ⟨number, a.self⟩⟩) (a.answered m number)
  | tallied (p : Proposal) : Preparation a (.count p) none (a.tallied p)
  | without {other : MemberId} (foreign : other ≠ a.self) (member : other ∈ a.live) :
      Preparation a (.remove other) none (a.without other)

theorem preparation (a : Agreement) (operation : Operation) :
    Preparation a operation (a.assigns? operation) (a.prepared operation) := by
  cases operation with
  | create payload =>
    cases hc : after? a.created with
    | none =>
      simp only [assigns?, prepared, create_eq, hc]
      exact .same fun _ same => by cases same
    | some created =>
      cases hn : after? a.latest with
      | none =>
        simp only [assigns?, prepared, create_eq, hc, hn]
        exact .same fun _ same => by cases same
      | some number =>
        rw [assigns?_create hc hn]
        simp only [prepared, hc, hn]
        exact .drafted hc hn
  | propose m =>
    rcases a.propose_cases m with
      same | ⟨x, found, same⟩ | ⟨number, foreign, unanswered, undelivered, next, new⟩
    · simp only [assigns?, prepared, same, ite_self]
      exact .same fun _ same => by cases same
    · have known : a.answers.contains m.id = true := Table.contains_iff.mpr ⟨x, found⟩
      simp only [assigns?, prepared, same, known, if_true]
      exact .same fun _ same => by cases same
    · simp only [assigns?_propose unanswered, prepared, new]
      exact .answered foreign unanswered undelivered next
  | count p => exact .tallied p
  | follow d => exact .same fun _ same => by cases same
  | remove other =>
    by_cases idle : other = a.self ∨ other ∉ a.live
    · simp only [assigns?, prepared, if_pos idle]
      exact .same fun _ same => by cases same
    · have effective := not_or.mp idle
      simp only [assigns?, prepared, if_neg idle]
      exact .without effective.1 (Decidable.not_not.mp effective.2)

theorem Preparation.self {a b : Agreement} {operation : Operation} {proposal : Option Proposal}
    (prepares : Preparation a operation proposal b) : b.self = a.self := by
  cases prepares with
  | tallied p => exact (a.tallied_frame p).1
  | _ => rfl

theorem Coherent.prepared {a b : Agreement} (h : a.Coherent) {operation : Operation}
    {proposal : Option Proposal} (prepares : Preparation a operation proposal b) : b.Coherent := by
  cases prepares with
  | same => exact h
  | drafted created next => exact h.drafted rfl created next
  | answered foreign unanswered _ next => exact h.answered foreign unanswered next
  | tallied p => exact h.tallied p
  | without foreign => exact h.without foreign

theorem Coherent.ready {a : Agreement} (h : a.Coherent) (operation : Operation) :
    (a.ready operation).Coherent :=
  (h.prepared (a.preparation operation)).closeAll _

/-- A ballot that is closed stays closed. -/
theorem Preparation.stays_closed {a b : Agreement} {operation : Operation}
    {proposal : Option Proposal} (prepares : Preparation a operation proposal b) {id : MessageId}
    (closed : a.ballots.get? id = none) (old : id.number ≤ a.created) :
    b.ballots.get? id = none := by
  cases prepares with
  | same => exact closed
  | @drafted payload created number next_created next =>
    have other : (⟨a.self, created⟩ : MessageId) ≠ id := by
      rintro rfl
      exact UInt32.lt_irrefl _ (lt_after next_created old)
    rw [get?_drafted, if_neg other, closed]
  | answered => exact closed
  | without => exact closed
  | tallied p => rw [get?_tallied, closed, Option.map_none, ite_self]

theorem perform_frame (a : Agreement) (operation : Operation) :
    (a.perform operation).live = (a.prepared operation).live ∧
    (a.perform operation).created = (a.prepared operation).created ∧
    ∀ id, (a.perform operation).ballots.get? id =
      if id ∈ (a.decides operation).map Settlement.id then none
      else (a.prepared operation).ballots.get? id := by
  obtain ⟨-, live, created, ballots⟩ := (a.ready operation).adoptAll_frame (a.rules operation)
  rw [(a.perform_eq operation).1, live, created, ballots]
  refine ⟨by rw [ready, closeAll_eq], by rw [ready, closeAll_eq], fun id => ?_⟩
  rw [ready, get?_closeAll, List.map_map]
  rfl

theorem decides_distinct {a : Agreement} (coherent : a.Coherent) (operation : Operation) :
    ((a.decides operation).map Settlement.id).Nodup := by
  by_cases given : ∃ d, operation = .follow d
  · obtain ⟨d, rfl⟩ := given
    exact .nil
  · obtain ⟨-, decides, -⟩ := a.perform_decideAll fun d same => given ⟨d, same⟩
    rw [decides]
    exact (settles_decideAll (coherent.prepared (a.preparation operation)).self_live _).distinct

/-- A decision that a call adopts was given to it, or its ballot called for it. -/
theorem due_of_mem_rules {a : Agreement} {operation : Operation} {d : Decision}
    (adopted : d ∈ a.rules operation) :
    operation = .follow d ∨
      d ∈ (a.decides operation).map Settlement.decision ∧
        (a.prepared operation).due? d.id = some d := by
  by_cases given : ∃ e, operation = .follow e
  · obtain ⟨e, rfl⟩ := given
    exact .inl (congrArg Operation.follow (List.mem_singleton.mp adopted).symm)
  · have taken : d ∈ (a.decides operation).map Settlement.decision := by
      cases operation with
      | follow e => exact absurd ⟨e, rfl⟩ given
      | _ => exact adopted
    refine .inr ⟨taken, ?_⟩
    rw [decisions_eq] at taken
    obtain ⟨id, -, due⟩ := List.mem_filterMap.mp taken
    rwa [(due?_eq_some_iff.mp due).1]

theorem created_le_run (a : Agreement) (operations : List Operation) :
    a.created ≤ (a.run operations).created := by
  induction operations generalizing a with
  | nil => exact UInt32.le_refl _
  | cons operation rest ih =>
    exact UInt32.le_trans (a.change_perform operation).created_le (ih (a.perform operation))

/-- The ballots stand in the order of their ids. -/
def InTurn (a : Agreement) : Prop := a.ballots.keys.Pairwise fun x y => x.precedes y = true

theorem keys_closeAll_sublist (a : Agreement) (ds : List Decision) :
    (a.closeAll ds).ballots.keys.Sublist a.ballots.keys := by
  unfold closeAll
  induction ds generalizing a with
  | nil => exact List.Sublist.refl _
  | cons d rest ih => exact (ih (a.closed d.id)).trans (a.ballots.keys_erase_sublist d.id)

/-- A new own message has a greater number than all that have a ballot. -/
theorem InTurn.prepared {a b : Agreement} (h : a.InTurn) (coherent : a.Coherent)
    {operation : Operation} {proposal : Option Proposal}
    (prepares : Preparation a operation proposal b) : b.InTurn := by
  cases prepares with
  | same => exact h
  | @drafted payload created number next_created =>
    have before : ∀ id ∈ a.ballots.keys, id.precedes ⟨a.self, created⟩ = true := by
      intro id open_
      obtain ⟨ballot, found⟩ := Table.mem_keys_iff.mp open_
      obtain ⟨own, -, le⟩ := coherent.ballot_own id ballot found
      simp [MessageId.precedes, own, lt_after next_created le]
    have new : (⟨a.self, created⟩ : MessageId) ∉ a.ballots.keys := by
      intro open_
      have lt := before _ open_
      simp [MessageId.precedes] at lt
    rw [InTurn, drafted, Table.keys_put_of_not_mem new]
    refine List.pairwise_append.mpr ⟨h, List.pairwise_singleton _ _, fun id open_ k here => ?_⟩
    rw [List.mem_singleton.mp here]
    exact before id open_
  | answered => exact h
  | tallied p =>
    unfold tallied
    split
    · exact h
    · rename_i ballot found
      rw [InTurn, Table.keys_put (Table.mem_keys_iff.mpr ⟨ballot, found⟩)]
      exact h
  | without => exact h

theorem InTurn.perform {a : Agreement} (h : a.InTurn) (coherent : a.Coherent)
    (operation : Operation) : (a.perform operation).InTurn := by
  obtain ⟨-, -, -, ballots⟩ := (a.ready operation).adoptAll_frame (a.rules operation)
  rw [InTurn, (a.perform_eq operation).1, ballots]
  exact (h.prepared coherent (a.preparation operation)).sublist (keys_closeAll_sublist _ _)

theorem InTurn.run {a : Agreement} (h : a.InTurn) (coherent : a.Coherent)
    (operations : List Operation) : (a.run operations).InTurn := by
  induction operations generalizing a with
  | nil => exact h
  | cons operation rest ih =>
    exact ih (h.perform coherent operation) (coherent.change (a.change_perform operation))

/-- Whatever was called, the ballots stand in the order of their ids. A removal tries them in this
order, so it need not sort them. -/
theorem ballots_in_turn (self : MemberId) (members : List MemberId)
    (operations : List Operation) :
    let ids := ((start self members).run operations).ballots.keys
    ids.Pairwise (fun x y => x.precedes y = true) ∧
    ids.mergeSort (fun x y => !y.precedes x) = ids := by
  have first : (start self members).InTurn := List.Pairwise.nil
  have inTurn := first.run (.start self members) operations
  refine ⟨inTurn, List.mergeSort_of_pairwise (inTurn.imp fun {x y} lt => ?_)⟩
  simp only [MessageId.precedes] at lt ⊢
  grind

end Concord.Agreement
