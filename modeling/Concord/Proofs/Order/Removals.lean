import Concord.Proofs.Order.Confluence
import Concord.Proofs.Order.Unforged

/-!
It does not matter in which order two members are given up. Either way the ballots that lack only
their proposals are completed, some by the first removal and the others by the second one, and the
decisions are the same. The queue waits for all of them, so it makes no difference which come first.
-/

namespace Concord

/-- Entries neither of which precedes the other differ in their messages alone. -/
theorem HoldBack.Entry.tied {x y : Entry} (later : x.precedes y = false)
    (earlier : y.precedes x = false) : x.final = y.final ∧ x.stamp = y.stamp := by
  rw [← Bool.not_eq_true, precedes_iff] at later earlier
  obtain ⟨_, ⟨n, ⟨r⟩⟩, f⟩ := x
  obtain ⟨_, ⟨k, ⟨s⟩⟩, g⟩ := y
  simp only at later earlier
  obtain rfl : n = k := by grind
  obtain rfl : f = g := by
    cases f <;> cases g <;> simp_all
  obtain rfl : r = s := by grind
  exact ⟨rfl, rfl⟩

namespace Agreement

variable {a : Agreement} {p q : MemberId}

/-- The proposals that are recorded for own messages, and the final stamps of messages that wait. -/
def stakes (a : Agreement) : List Decision :=
  (a.ballots.entries.flatMap fun e => e.2.entries.map fun vote => ⟨e.1, ⟨vote.2, vote.1⟩⟩) ++
    (a.queue.entries.filter HoldBack.Entry.final).map fun e => ⟨e.id, e.stamp⟩

/-- No stamp stands for two messages. -/
def Unambiguous (ds : List Decision) : Prop := ∀ d ∈ ds, ∀ e ∈ ds, d.stamp = e.stamp → d.id = e.id

instance (ds : List Decision) : Decidable (Unambiguous ds) :=
  inferInstanceAs (Decidable (∀ d ∈ ds, ∀ e ∈ ds, d.stamp = e.stamp → d.id = e.id))

theorem mem_stakes_of_cast {id : MessageId} {c : Ballot} {s : Stamp}
    (found : a.ballots.get? id = some c) (cast : c.get? s.proposer = some s.number) :
    ⟨id, s⟩ ∈ a.stakes := by
  refine List.mem_append_left _ (List.mem_flatMap.mpr ⟨(id, c), Table.mem_entries_iff.mpr found, ?_⟩)
  exact List.mem_map.mpr ⟨(s.proposer, s.number), Table.mem_entries_iff.mpr cast, rfl⟩

theorem mem_stakes_of_final {e : HoldBack.Entry} (he : e ∈ a.queue.entries)
    (final : e.final = true) : ⟨e.id, e.stamp⟩ ∈ a.stakes :=
  List.mem_append_right _ (List.mem_map_of_mem (List.mem_filter.mpr ⟨he, final⟩))

/-- The decisions that the ballots call for, in the order of the messages. -/
def dues (a : Agreement) : List Decision := a.ballots.keys.filterMap a.due?

theorem mem_dues_iff {d : Decision} : d ∈ a.dues ↔ a.due? d.id = some d := by
  rw [dues, List.mem_filterMap]
  constructor
  · rintro ⟨id, -, due⟩
    rwa [(due?_eq_some_iff.mp due).1]
  · intro due
    obtain ⟨-, c, found, -⟩ := due?_eq_some_iff.mp due
    exact ⟨d.id, Table.mem_keys_iff.mpr ⟨c, found⟩, due⟩

theorem eq_of_mem_dues {d e : Decision} (hd : d ∈ a.dues) (he : e ∈ a.dues) (same : d.id = e.id) :
    d = e := by
  rw [mem_dues_iff] at hd he
  exact Option.some.inj (hd.symm.trans (same ▸ he))

theorem dues_distinct (a : Agreement) : (a.dues.map Decision.id).Nodup := by
  rw [dues, List.map_filterMap]
  refine a.ballots.distinct.filterMap fun id k x hx hy => ?_
  obtain ⟨d, due, rfl⟩ := Option.map_eq_some_iff.mp hx
  obtain ⟨e, due', same⟩ := Option.map_eq_some_iff.mp hy
  rw [← (due?_eq_some_iff.mp due).1, ← (due?_eq_some_iff.mp due').1, same]

theorem dues_congr {b : Agreement} (live : b.live = a.live) (ballots : b.ballots = a.ballots) :
    b.dues = a.dues := by
  rw [dues, dues, ballots]
  exact List.filterMap_congr fun id _ => due?_congr live (by rw [ballots])

/-- Whom one does not wait for cannot keep a decision back. -/
theorem mem_dues_without {d : Decision} (hd : d ∈ a.dues) : d ∈ (a.without q).dues := by
  rw [mem_dues_iff, due?_eq_some_iff] at hd ⊢
  obtain ⟨about, c, found, all, won⟩ := hd
  exact ⟨about, c, found, fun r live => all r (Roll.mem_erase.mp live).1, won⟩

theorem mem_dues_closeAll {ds : List Decision} {d : Decision} :
    d ∈ (a.closeAll ds).dues ↔ d ∈ a.dues ∧ d.id ∉ ds.map Decision.id := by
  have live : (a.closeAll ds).live = a.live := by rw [closeAll_eq]
  simp only [mem_dues_iff, due?_eq_some_iff, get?_closeAll, live]
  by_cases closed : d.id ∈ ds.map Decision.id
  · simp [closed]
  · simp [closed]

/-- The decisions that are due at once when a member is given up as well: those that are due already,
and those that come to be due when the ballots of these are closed. -/
theorem dues_perm (a : Agreement) (q : MemberId) :
    (a.dues ++ ((a.without q).closeAll a.dues).dues).Perm (a.without q).dues := by
  have apart : ∀ d ∈ a.dues, ∀ e ∈ ((a.without q).closeAll a.dues).dues, d ≠ e := by
    rintro d hd e he rfl
    exact (mem_dues_closeAll.mp he).2 (List.mem_map_of_mem hd)
  refine (List.perm_ext_iff_of_nodup ?_ (dues_distinct _).of_map).mpr fun d => ?_
  · exact List.nodup_append.mpr ⟨a.dues_distinct.of_map, (dues_distinct _).of_map, apart⟩
  · rw [List.mem_append, mem_dues_closeAll]
    constructor
    · rintro (before | ⟨now, -⟩)
      · exact mem_dues_without before
      · exact now
    · intro now
      by_cases listed : d.id ∈ a.dues.map Decision.id
      · obtain ⟨e, he, same⟩ := List.mem_map.mp listed
        exact .inl (eq_of_mem_dues (mem_dues_without he) now same ▸ he)
      · exact .inr ⟨now, listed⟩

/-- A removal without effect: nobody gives up itself, or twice the same member. -/
theorem remove_idle (idle : p = a.self ∨ p ∉ a.live) : a.remove p = (a, []) := if_pos idle

theorem remove_effective (effective : ¬ (p = a.self ∨ p ∉ a.live)) :
    a.remove p = (a.without p).decideAll a.ballots.keys := if_neg effective

/-- A removal takes the decisions that are due without the member. -/
theorem remove_eq (effective : ¬ (p = a.self ∨ p ∉ a.live)) :
    (a.remove p).1 = ((a.without p).conclude (a.without p).dues).1 ∧
    (a.remove p).2.map Settlement.decision = (a.without p).dues ∧
    (a.remove p).2.flatMap Settlement.delivered =
      ((a.without p).conclude (a.without p).dues).2 := by
  rw [remove_effective effective]
  exact (a.without p).decideAll_eq a.ballots.distinct

theorem remove_frame (a : Agreement) (p : MemberId) :
    (a.remove p).1.self = a.self ∧ ∀ r ∈ (a.remove p).1.live, r ∈ a.live := by
  by_cases idle : p = a.self ∨ p ∉ a.live
  · rw [remove_idle idle]
    exact ⟨rfl, fun _ live => live⟩
  · rw [remove_effective idle]
    obtain ⟨self, live⟩ := (a.without p).decideAll_frame a.ballots.keys
    refine ⟨self, fun r hr => ?_⟩
    rw [live] at hr
    exact (Roll.mem_erase.mp hr).1

/-- Gives up two members, one after the other. -/
def removeBoth (a : Agreement) (p q : MemberId) : Agreement × List Settlement :=
  (((a.remove p).1.remove q).1, (a.remove p).2 ++ ((a.remove p).1.remove q).2)

theorem removeBoth_idle (idle : p = a.self ∨ p ∉ a.live) :
    a.removeBoth p q = a.remove q ∧ a.removeBoth q p = a.remove q := by
  obtain ⟨self, live⟩ := a.remove_frame q
  have later : p = (a.remove q).1.self ∨ p ∉ (a.remove q).1.live := by
    rw [self]
    exact idle.imp_right fun absent here => absent (live p here)
  rw [removeBoth, removeBoth, remove_idle idle, remove_idle later]
  exact ⟨rfl, by rw [List.append_nil]⟩

/-- Two removals take the decisions that are due without both members, in one order or another. -/
theorem removeBoth_eq (hp : ¬ (p = a.self ∨ p ∉ a.live)) (hq : ¬ (q = a.self ∨ q ∉ a.live))
    (other : p ≠ q) : ∃ ds, ds.Perm ((a.without p).without q).dues ∧
      (a.removeBoth p q).1 = (((a.without p).without q).conclude ds).1 ∧
      (a.removeBoth p q).2.map Settlement.decision = ds ∧
      (a.removeBoth p q).2.flatMap Settlement.delivered =
        (((a.without p).without q).conclude ds).2 := by
  obtain ⟨state, decisions, delivered⟩ := remove_eq hp
  obtain ⟨-, live, -, ballots⟩ :=
    ((a.without p).closeAll (a.without p).dues).adoptAll_frame (a.without p).dues
  rw [← conclude, ← state] at live ballots
  have effective : ¬ (q = (a.remove p).1.self ∨ q ∉ (a.remove p).1.live) := by
    rw [(a.remove_frame p).1, live, closeAll_eq]
    refine fun idle => hq (idle.imp_right fun absent here => absent ?_)
    exact Roll.mem_erase.mpr ⟨here, other.symm⟩
  obtain ⟨state', decisions', delivered'⟩ := remove_eq effective
  have rest : ((a.remove p).1.without q).dues =
      (((a.without p).without q).closeAll (a.without p).dues).dues := by
    rw [closeAll_without]
    exact dues_congr (congrArg (·.erase q) live) ballots
  have perm := dues_perm (a.without p) q
  rw [← rest] at perm
  -- the second member may as well be given up before the decisions of the first removal are taken
  have earlier := (a.without p).conclude_without q (a.without p).dues
  rw [← state, ← delivered] at earlier
  refine ⟨_, perm, ?_, ?_, ?_⟩
  · rw [conclude_append, earlier]
    exact state'
  · rw [removeBoth, List.map_append, decisions, decisions']
  · rw [conclude_append, earlier, removeBoth, List.flatMap_append, delivered']

/-- The queue waits for all decisions that are due, and no two entries can tie when they are known. -/
theorem awaits_dues {assigned : List Proposal} {ruled : List Decision} (sound : a.queue.Sound)
    (numbered : Numbered assigned ruled a) (voted : OwnVoted assigned a) (waiting : OwnOpen a)
    (unambiguous : Unambiguous a.stakes) : a.queue.Awaits a.dues where
  distinct := a.dues_distinct
  provisional d hd := by
    have due := mem_dues_iff.mp hd
    obtain ⟨-, c, found, -⟩ := due?_eq_some_iff.mp due
    obtain ⟨e, he, about, provisional⟩ := waiting d.id c found
    have made := numbered.open_assigned e he provisional
    exact ⟨e, he, about, provisional, numbered.le_due voted due made about⟩
  untied := by
    -- an entry that is final in the end has a stamp that is at stake, any other one keeps its own
    have standing : ∀ e ∈ a.queue.entries,
        ⟨e.id, (e.under a.dues).stamp⟩ ∈ a.stakes ∧ (e.under a.dues).final = true ∨
          ⟨e.id, (e.under a.dues).stamp⟩ ∈ assigned ∧ (e.under a.dues).final = false := by
      intro e he
      rcases e.under_cases a.dues with ⟨d, hd, about, settled⟩ | ⟨-, same⟩
      · obtain ⟨-, c, found, -, won⟩ := due?_eq_some_iff.mp (mem_dues_iff.mp hd)
        rw [settled, ← about]
        exact .inl ⟨mem_stakes_of_cast found (Ballot.get?_winner won), rfl⟩
      · rw [same]
        cases known : e.final with
        | true => exact .inl ⟨mem_stakes_of_final he known, rfl⟩
        | false => exact .inr ⟨numbered.open_assigned e he known, rfl⟩
    intro x' hx' y' hy' later earlier
    obtain ⟨x, hx, rfl⟩ := List.mem_map.mp hx'
    obtain ⟨y, hy, rfl⟩ := List.mem_map.mp hy'
    obtain ⟨final, stamp⟩ := HoldBack.Entry.tied later earlier
    suffices same : x.id = y.id by rw [sound.eq_of_id_eq hx hy same]
    rcases standing x hx with ⟨stake, closed⟩ | ⟨made, open_⟩ <;>
      rcases standing y hy with ⟨stake', closed'⟩ | ⟨made', open'⟩
    · exact unambiguous _ stake _ stake' stamp
    · cases closed.symm.trans (final.trans open')
    · cases open_.symm.trans (final.trans closed')
    · exact congrArg Proposal.id
        (numbered.eq_of_number_eq made made' (congrArg Stamp.number stamp))

/-- The same state, the same decisions, and the same deliveries in the same order. -/
def SameOutcome (x y : Agreement × List Settlement) : Prop :=
  x.1 = y.1 ∧ (x.2.map Settlement.decision).Perm (y.2.map Settlement.decision) ∧
    x.2.flatMap Settlement.delivered = y.2.flatMap Settlement.delivered

theorem SameOutcome.refl (x : Agreement × List Settlement) : SameOutcome x x := ⟨rfl, .refl _, rfl⟩

theorem without_comm (a : Agreement) (p q : MemberId) :
    (a.without p).without q = (a.without q).without p := by
  have rolls : (a.live.erase p).erase q = (a.live.erase q).erase p := by
    apply Roll.ext
    intro r
    simp only [Roll.mem_erase, and_right_comm]
  exact congrArg (fun live => { a with live }) rolls

theorem removeBoth_comm (coherent : a.Coherent) (hp : ¬ (p = a.self ∨ p ∉ a.live))
    (hq : ¬ (q = a.self ∨ q ∉ a.live)) (other : p ≠ q)
    (awaits : a.queue.Awaits ((a.without p).without q).dues) :
    SameOutcome (a.removeBoth p q) (a.removeBoth q p) := by
  have settled := (coherent.without (not_or.mp hp).1).without (not_or.mp hq).1
  obtain ⟨ds, perm, state, decisions, delivered⟩ := removeBoth_eq hp hq other
  obtain ⟨es, perm', state', decisions', delivered'⟩ := removeBoth_eq hq hp other.symm
  rw [a.without_comm q p] at perm' state' delivered'
  have together : ds.Perm es := perm.trans perm'.symm
  have concludes := conclude_perm settled (awaits.perm perm.symm) together
  refine ⟨?_, ?_, ?_⟩
  · rw [state, state', concludes]
  · rw [decisions, decisions']
    exact together
  · rw [delivered, delivered', concludes]

/-- Giving up two members in either order ends in the same state, with the same decisions and the same
deliveries in the same order, though the first removal may decide on other messages in the one order
than in the other. -/
theorem removals_commute {self : MemberId} {members : List MemberId} {operations : List Operation}
    (unforged : ∀ operation ∈ operations, operation.Unforged self)
    (unambiguous : Unambiguous ((start self members).run operations).stakes) (p q : MemberId) :
    SameOutcome (((start self members).run operations).removeBoth p q)
      (((start self members).run operations).removeBoth q p) := by
  have started := Coherent.start self members
  have coherent := started.run operations
  have numbered := (Numbered.start self members).run started operations
  have voted := (OwnVoted.start self members).run unforged
  have waiting := (OwnOpen.start self members).run started unforged
  generalize (start self members).run operations = a at *
  by_cases same : p = q
  · subst same
    exact .refl _
  by_cases idle : p = a.self ∨ p ∉ a.live
  · obtain ⟨first, last⟩ := removeBoth_idle (q := q) idle
    rw [first, last]
    exact .refl _
  by_cases idle' : q = a.self ∨ q ∉ a.live
  · obtain ⟨first, last⟩ := removeBoth_idle (q := p) idle'
    rw [first, last]
    exact .refl _
  have framed : Numbered _ _ ((a.without p).without q) := numbered.frame _ a.ballots
  have awaits : ((a.without p).without q).queue.Awaits ((a.without p).without q).dues :=
    awaits_dues coherent.sound framed voted waiting unambiguous
  exact removeBoth_comm coherent idle idle' same awaits

/-- The removal of the third member decides on the first message, which is delivered at once, and that
of the second member on the second message, which waits for the first one. -/
theorem removals_commute_of_two_messages :
    let calls : List Operation := [.create 10, .create 20, .count ⟨⟨⟨1⟩, 1⟩, ⟨1, ⟨2⟩⟩⟩,
      .count ⟨⟨⟨1⟩, 2⟩, ⟨5, ⟨3⟩⟩⟩]
    let a := (start ⟨1⟩ [⟨1⟩, ⟨2⟩, ⟨3⟩]).run calls
    (∀ operation ∈ calls, operation.Unforged ⟨1⟩) ∧ Unambiguous a.stakes ∧
      (a.remove ⟨3⟩).2.flatMap Settlement.delivered = [⟨⟨⟨1⟩, 1⟩, 10⟩] ∧
      (a.remove ⟨2⟩).2.map Settlement.decision = [⟨⟨⟨1⟩, 2⟩, ⟨5, ⟨3⟩⟩⟩] ∧
      (a.remove ⟨2⟩).2.flatMap Settlement.delivered = [] ∧
      SameOutcome (a.removeBoth ⟨3⟩ ⟨2⟩) (a.removeBoth ⟨2⟩ ⟨3⟩) := by
  intro calls a
  have unforged : ∀ operation ∈ calls, operation.Unforged ⟨1⟩ := by decide
  have unambiguous : Unambiguous a.stakes := by decide +kernel
  exact ⟨unforged, unambiguous, by decide +kernel, by decide +kernel, by decide +kernel,
    removals_commute unforged unambiguous ⟨3⟩ ⟨2⟩⟩

end Agreement

end Concord
