import Concord.Proofs.Order.Agreement
import Concord.Proofs.Order.Stamp
import Concord.Proofs.World.Ledger

/-!
The queue and the deliveries of one member, measured against the history. Deliveries stand in the
order of their final stamps, and whatever still waits can only come behind them: an open entry
because its number is greater and can only grow, a final one because of its stamp.
-/

namespace Concord

/-- The final stamp of a message precedes the one of another message. -/
def Precedes (H : List Event) (m k : Message) : Prop :=
  ∃ p q s t, .learned p ⟨m.id, s⟩ ∈ H ∧ .learned q ⟨k.id, t⟩ ∈ H ∧ s.precedes t = true

theorem Precedes.mono {H K : List Event} {m k : Message} (grows : ∀ e ∈ H, e ∈ K) :
    Precedes H m k → Precedes K m k := by
  rintro ⟨p, q, s, t, hs, ht, lt⟩
  exact ⟨p, q, s, t, grows _ hs, grows _ ht, lt⟩

structure Orderly (H : List Event) (p : MemberId) (log : List Message) (latest : UInt32)
    (q : HoldBack) : Prop where
  sound : q.Sound
  proposed_le : ∀ x, .proposed x ∈ H → x.stamp.proposer = p → x.stamp.number ≤ latest
  learned_le : ∀ d, .learned p d ∈ H → d.stamp.number ≤ latest
  /-- A message that the member has proposed for waits or was delivered. -/
  proposed_placed : ∀ x, .proposed x ∈ H → x.stamp.proposer = p →
    x.id ∈ q.waiting ∨ x.id ∈ log.map Message.id
  learned_placed : ∀ d, .learned p d ∈ H →
    (∃ e ∈ q.entries, e.id = d.id ∧ e.final = true) ∨ d.id ∈ log.map Message.id
  entry_sent : ∀ e ∈ q.entries, .sent e.message ∈ H
  open_proposed : ∀ e ∈ q.entries, e.final = false →
    .proposed ⟨e.id, e.stamp⟩ ∈ H ∧ e.stamp.proposer = p
  final_learned : ∀ e ∈ q.entries, e.final = true → .learned p ⟨e.id, e.stamp⟩ ∈ H
  log_sent : ∀ m ∈ log, .sent m ∈ H
  log_passed : ∀ m ∈ log, ∃ s, .learned p ⟨m.id, s⟩ ∈ H ∧ ∀ e ∈ q.entries, e.Behind s
  log_sorted : log.Pairwise (Precedes H)
  apart : ∀ m ∈ log, m.id ∉ q.waiting

namespace Orderly

variable {roster : Roster} {H K : List Event} {p : MemberId} {log : List Message}
  {latest number : UInt32} {q : HoldBack}

theorem start (p : MemberId) (latest : UInt32) : Orderly [] p [] latest .empty where
  sound := HoldBack.sound_empty
  log_sorted := .nil
  proposed_le _ h := by cases h
  learned_le _ h := by cases h
  proposed_placed _ h := by cases h
  learned_placed _ h := by cases h
  entry_sent _ h := by cases h
  open_proposed _ h := by cases h
  final_learned _ h := by cases h
  log_sent _ h := by cases h
  log_passed _ h := by cases h
  apart _ h := by cases h

/-- What others do, and what the member itself sends or decides, does not matter here. -/
theorem mono (h : Orderly H p log latest q) (grows : ∀ e ∈ H, e ∈ K)
    (proposed : ∀ x, .proposed x ∈ K → x.stamp.proposer = p → .proposed x ∈ H)
    (learned : ∀ d, .learned p d ∈ K → .learned p d ∈ H) : Orderly K p log latest q where
  sound := h.sound
  proposed_le x hx own := h.proposed_le x (proposed x hx own) own
  learned_le d hd := h.learned_le d (learned d hd)
  proposed_placed x hx own := h.proposed_placed x (proposed x hx own) own
  learned_placed d hd := h.learned_placed d (learned d hd)
  entry_sent e he := grows _ (h.entry_sent e he)
  open_proposed e he provisional :=
    ⟨grows _ (h.open_proposed e he provisional).1, (h.open_proposed e he provisional).2⟩
  final_learned e he final := grows _ (h.final_learned e he final)
  log_sent m hm := grows _ (h.log_sent m hm)
  log_passed m hm :=
    have ⟨s, known, behind⟩ := h.log_passed m hm
    ⟨s, grows _ known, behind⟩
  log_sorted := h.log_sorted.imp fun order => order.mono grows
  apart := h.apart

/-- A new open entry has a greater number than everything before it. -/
theorem enter (h : Orderly H p log latest q) {m : Message} (sent : .sent m ∈ H)
    (absent : m.id ∉ q.waiting) (undelivered : m.id ∉ log.map Message.id)
    (next : Agreement.after? latest = some number) :
    Orderly (H ++ [.proposed ⟨m.id, ⟨number, p⟩⟩]) p log number (q.add m ⟨number, p⟩).1 := by
  have above {n : UInt32} (le : n ≤ latest) : n < number := Agreement.lt_after next le
  have sorted : log.Pairwise (Precedes (H ++ [.proposed ⟨m.id, ⟨number, p⟩⟩])) :=
    h.log_sorted.imp fun order => order.mono fun e he => List.mem_append_left _ he
  have passed : ∀ k ∈ log, ∃ s, .learned p ⟨k.id, s⟩ ∈ H ∧
      ∀ e ∈ (q.add m ⟨number, p⟩).1.entries, e.Behind s := by
    intro k hk
    obtain ⟨s, known, behind⟩ := h.log_passed k hk
    refine ⟨s, known, fun e he => ?_⟩
    rw [HoldBack.add_eq _ absent] at he
    rcases List.mem_append.mp he with old | new
    · exact behind e old
    · rw [List.mem_singleton.mp new, HoldBack.Entry.behind_open rfl]
      exact above (h.learned_le _ known)
  have fits := HoldBack.sound_add h.sound ⟨number, p⟩ absent
  obtain ⟨-, proposed_le, learned_le, proposed_placed, learned_placed, entry_sent, open_proposed,
    final_learned, log_sent, -, -, apart⟩ := h
  rw [HoldBack.add_eq _ absent] at fits passed ⊢
  constructor <;> grind [HoldBack.Entry.id, UInt32.le_of_lt, UInt32.le_refl]

theorem final_stamp (h : Orderly H p log latest q) (ledger : Ledger roster H) {d : Decision}
    {l : List MemberId} (decided : .decided d l ∈ H) {e : HoldBack.Entry} (he : e ∈ q.entries)
    (about : e.id = d.id) (known : e.final = true) : e.stamp = d.stamp := by
  obtain ⟨k, decided', -⟩ := ledger.learned_decided p _ (h.final_learned e he known)
  exact congrArg Decision.stamp (ledger.decided_once _ d k l decided' decided about)

theorem open_le (h : Orderly H p log latest q) (ledger : Ledger roster H) {d : Decision}
    {l : List MemberId} (decided : .decided d l ∈ H) (listed : p ∈ l) {e : HoldBack.Entry}
    (he : e ∈ q.entries) (about : e.id = d.id) (known : e.final = false) :
    e.stamp.number ≤ d.stamp.number := by
  obtain ⟨proposed, own⟩ := h.open_proposed e he known
  obtain ⟨k, proposed', le⟩ := ledger.decided_above d l decided p listed
  have proposals := ledger.proposal_once _ _ proposed proposed' about own
  exact UInt32.le_trans (UInt32.le_of_eq (congrArg (fun x => x.stamp.number) proposals)) le

theorem placed (h : Orderly H p log latest q) (ledger : Ledger roster H) {d : Decision}
    {l : List MemberId} (decided : .decided d l ∈ H) (listed : p ∈ l) :
    d.id ∈ q.waiting ∨ d.id ∈ log.map Message.id := by
  obtain ⟨k, proposed, -⟩ := ledger.decided_above d l decided p listed
  exact h.proposed_placed _ proposed rfl

/-- An entry behind a stamp stays behind it when its message is decided. -/
theorem behind_settled (h : Orderly H p log latest q) (ledger : Ledger roster H) {d : Decision}
    {l : List MemberId} (decided : .decided d l ∈ H) (listed : p ∈ l) {e : HoldBack.Entry}
    (he : e ∈ q.entries) (about : e.id = d.id) {s : Stamp} (behind : e.Behind s) :
    (e.settled d.stamp).Behind s := by
  rw [HoldBack.Entry.behind_final rfl]
  cases known : e.final with
  | true =>
    rw [HoldBack.Entry.behind_final known] at behind
    exact h.final_stamp ledger decided he about known ▸ behind
  | false =>
    rw [HoldBack.Entry.behind_open known] at behind
    have le := h.open_le ledger decided listed he about known
    exact Stamp.precedes_iff.mpr (.inl (UInt32.lt_of_lt_of_le behind le))

/-- A decision reaches a member only after it has proposed, and the proposal was no greater. -/
theorem settle (h : Orderly H p log latest q) (ledger : Ledger roster H) {d : Decision}
    {l : List MemberId} (decided : .decided d l ∈ H) (listed : p ∈ l) :
    Orderly (H ++ [.learned p d]) p log (max latest d.stamp.number)
      (q.settle d.id d.stamp).1 := by
  have placed := h.placed ledger decided listed
  have sorted : log.Pairwise (Precedes (H ++ [.learned p d])) :=
    h.log_sorted.imp fun order => order.mono fun e he => List.mem_append_left _ he
  have passed : ∀ m ∈ log, ∃ s, .learned p ⟨m.id, s⟩ ∈ H ∧
      ∀ e ∈ (q.settle d.id d.stamp).1.entries, e.Behind s := by
    intro m hm
    obtain ⟨s, known, behind⟩ := h.log_passed m hm
    refine ⟨s, known, fun e he => ?_⟩
    rcases (HoldBack.mem_settle h.sound).mp he with ⟨old, -⟩ | ⟨x, hx, same, rfl⟩
    · exact behind e old
    · exact h.behind_settled ledger decided listed hx same (behind x hx)
  obtain ⟨latest_le, stamp_le⟩ := Agreement.le_max latest d.stamp.number
  have entries : ∀ e, e ∈ (q.settle d.id d.stamp).1.entries ↔ e ∈ q.entries ∧ e.id ≠ d.id ∨
      ∃ x ∈ q.entries, x.id = d.id ∧ e = x.settled d.stamp := fun e => HoldBack.mem_settle h.sound
  have waits : ∀ id, id ∈ q.waiting ↔ ∃ e ∈ q.entries, e.id = id := fun id => h.sound.mem_waiting
  have waiting : (q.settle d.id d.stamp).1.waiting = q.waiting := by
    rw [HoldBack.settle_eq h.sound]
  have fits := HoldBack.sound_settle h.sound d.id d.stamp
  obtain ⟨-, proposed_le, learned_le, proposed_placed, learned_placed, entry_sent, open_proposed,
    final_learned, log_sent, -, -, apart⟩ := h
  generalize (q.settle d.id d.stamp).1 = settled at *
  constructor
  case learned_placed =>
    have settled_here : ∀ x ∈ q.entries, x.id = d.id →
        ∃ e ∈ settled.entries, e.id = d.id ∧ e.final = true :=
      fun x hx same => ⟨x.settled d.stamp, (entries _).mpr (.inr ⟨x, hx, same, rfl⟩), same, rfl⟩
    intro e he
    by_cases same : e.id = d.id
    · grind
    · rcases learned_placed e (by grind) with ⟨x, hx, about, final⟩ | delivered
      · exact .inl ⟨x, (entries x).mpr (.inl ⟨hx, about ▸ same⟩), about, final⟩
      · exact .inr delivered
  case final_learned =>
    intro e he final
    rcases (entries e).mp he with ⟨old, -⟩ | ⟨x, hx, same, rfl⟩
    · exact List.mem_append_left _ (final_learned e old final)
    · have decision : (⟨(x.settled d.stamp).id, d.stamp⟩ : Decision) = d := by
        rw [HoldBack.Entry.settled_id, same]
      exact List.mem_append_right _ (List.mem_singleton.mpr (congrArg _ decision))
  all_goals grind [HoldBack.Entry.id, HoldBack.Entry.settled, UInt32.le_trans]

/-- Of two entries, the one that does not precede the other comes behind its final stamp: no two
messages have the same one. -/
theorem behind_of_not_precedes (h : Orderly H p log latest q) (ledger : Ledger roster H)
    {a b : HoldBack.Entry} (ha : a ∈ q.entries) (hb : b ∈ q.entries) (final : a.final = true)
    (order : b.precedes a = false) (other : a.id ≠ b.id) : b.Behind a.stamp := by
  apply HoldBack.Entry.behind_of_not_precedes final order
  intro known same
  apply other
  obtain ⟨l, decided, -⟩ := ledger.learned_decided p _ (h.final_learned a ha final)
  obtain ⟨k, decided', -⟩ := ledger.learned_decided p _ (h.final_learned b hb known)
  exact congrArg Decision.id (ledger.decided_injective decided decided' same.symm)

theorem sorted_freed (h : Orderly H p log latest q) (ledger : Ledger roster H) :
    (q.freed.map HoldBack.Entry.message).Pairwise (Precedes H) := by
  have distinct := List.pairwise_map.mp (HoldBack.freed_distinct h.sound).1
  refine List.pairwise_map.mpr (List.Pairwise.imp_of_mem ?_ (q.arranged_freed.and distinct))
  intro a b ha hb ⟨order, other⟩
  have hae := HoldBack.mem_entries_iff.mpr (.inl ha)
  have hbe := HoldBack.mem_entries_iff.mpr (.inl hb)
  have finalA := HoldBack.final_of_mem_freed ha
  have finalB := HoldBack.final_of_mem_freed hb
  have behind := h.behind_of_not_precedes ledger hae hbe finalA order other
  exact ⟨p, p, a.stamp, b.stamp, h.final_learned a hae finalA, h.final_learned b hbe finalB,
    (HoldBack.Entry.behind_final finalB).mp behind⟩

/-- What a release frees comes after everything delivered and before everything kept. -/
theorem release (h : Orderly H p log latest q) (ledger : Ledger roster H) :
    Orderly H p (log ++ q.release.2) latest q.release.1 := by
  have freed : ∀ e ∈ q.freed, e ∈ q.entries ∧ e.final = true := fun e he =>
    ⟨HoldBack.mem_entries_iff.mpr (.inl he), HoldBack.final_of_mem_freed he⟩
  have kept : ∀ e ∈ q.kept, e ∈ q.entries := fun e he => HoldBack.mem_entries_iff.mpr (.inr he)
  have passed : ∀ m ∈ log ++ q.release.2, ∃ s, .learned p ⟨m.id, s⟩ ∈ H ∧
      ∀ e ∈ q.kept, e.Behind s := by
    intro m hm
    rcases List.mem_append.mp hm with old | new
    · obtain ⟨s, known, behind⟩ := h.log_passed m old
      exact ⟨s, known, fun e he => behind e (kept e he)⟩
    · obtain ⟨e, he, rfl⟩ := List.mem_map.mp new
      obtain ⟨waits, final⟩ := freed e he
      refine ⟨e.stamp, h.final_learned e waits final, fun y hy => ?_⟩
      exact h.behind_of_not_precedes ledger waits (kept y hy) final
        (HoldBack.kept_behind_freed he hy) ((HoldBack.freed_distinct h.sound).2 e he y hy)
  have sorted : (log ++ q.release.2).Pairwise (Precedes H) := by
    refine List.pairwise_append.mpr ⟨h.log_sorted, h.sorted_freed ledger, fun m hm k hk => ?_⟩
    obtain ⟨e, he, rfl⟩ := List.mem_map.mp hk
    obtain ⟨waits, final⟩ := freed e he
    obtain ⟨s, known, behind⟩ := h.log_passed m hm
    exact ⟨p, p, s, e.stamp, known, h.final_learned e waits final,
      (HoldBack.Entry.behind_final final).mp (behind e waits)⟩
  have stays : ∀ e ∈ q.entries, e ∈ q.kept ∨ e.id ∈ q.release.2.map Message.id := by
    intro e he
    rcases HoldBack.mem_entries_iff.mp he with out | stays
    · exact .inr (List.mem_map.mpr ⟨e.message, List.mem_map_of_mem out, rfl⟩)
    · exact .inl stays
  have released_sent : ∀ m ∈ q.release.2, .sent m ∈ H := by
    intro m hm
    obtain ⟨e, he, rfl⟩ := List.mem_map.mp hm
    exact h.entry_sent e (freed e he).1
  have waiting : ∀ id, id ∈ q.release.1.waiting ↔
      id ∈ q.waiting ∧ id ∉ q.release.2.map Message.id := fun id => HoldBack.mem_waiting_release
  have fits := HoldBack.sound_release h.sound
  have entries : q.release.1.entries = q.kept := rfl
  obtain ⟨-, proposed_le, learned_le, proposed_placed, learned_placed, entry_sent, open_proposed,
    final_learned, log_sent, -, -, apart⟩ := h
  constructor <;> grind

/-- Adopting a decision twice is harmless: a message that was delivered does not wait any more. -/
theorem adopt (h : Orderly H p log latest q) (ledger : Ledger roster H) {d : Decision}
    {l : List MemberId} (decided : .decided d l ∈ H) (listed : p ∈ l) :
    Orderly (H ++ [.learned p d]) p (log ++ (q.adopt d).2) (max latest d.stamp.number)
      (q.adopt d).1 := by
  have settled := h.settle ledger decided listed
  unfold HoldBack.adopt
  split
  · obtain ⟨k, proposed, -⟩ := ledger.decided_above d l decided p listed
    have member : p ∈ roster.ids := ledger.placed _ proposed
    exact settled.release (ledger.append member ⟨l, decided, listed⟩)
  · rename_i absent
    have unchanged : (q.settle d.id d.stamp).1 = q := by rw [HoldBack.settle, if_neg absent]
    rw [unchanged] at settled
    rw [List.append_nil]
    exact settled

/-- Whatever was decided for a member before something that it delivered was delivered as well. -/
theorem delivered_before (h : Orderly H p log latest q) (ledger : Ledger roster H) {d : Decision}
    {l : List MemberId} (decided : .decided d l ∈ H) (listed : p ∈ l) {k : Message} (hk : k ∈ log)
    {r : MemberId} {t : Stamp} (learned : .learned r ⟨k.id, t⟩ ∈ H)
    (lt : d.stamp.precedes t = true) : d.id ∈ log.map Message.id := by
  apply (h.placed ledger decided listed).resolve_left
  intro waits
  obtain ⟨e, he, about⟩ := h.sound.mem_waiting.mp waits
  obtain ⟨s, learned', behind⟩ := h.log_passed k hk
  obtain rfl : s = t := congrArg Decision.stamp (ledger.learned_once learned' learned rfl)
  have behind := behind e he
  cases known : e.final with
  | true =>
    rw [HoldBack.Entry.behind_final known, h.final_stamp ledger decided he about known] at behind
    exact Stamp.precedes_asymm lt behind
  | false =>
    rw [HoldBack.Entry.behind_open known] at behind
    have le := UInt32.le_trans (h.open_le ledger decided listed he about known)
      (Stamp.number_le_of_precedes lt)
    exact UInt32.lt_irrefl _ (UInt32.lt_of_lt_of_le behind le)

end Orderly

end Concord
