import Concord.Proofs.Order.Stamp
import Concord.Proofs.Order.Unforged
import Mathlib.Data.List.Induction

/-!
One member's deliveries come in the order of their final stamps, whatever the other members do, as
long as they keep to three rules: they do not speak in its name, no decision is below the proposal
that it answered, and decisions on one message agree. What waits can only come later then, and what is
new gets a greater number than everything delivered.
-/

namespace Concord

/-- The decisions on one message agree. -/
def Consistent (ruled : List Decision) : Prop := ∀ d ∈ ruled, ∀ e ∈ ruled, d.id = e.id → d = e

/-- The queue and the deliveries of a member, measured against the decisions of a run. -/
structure InOrder (ruled : List Decision) (log : List Message) (latest : UInt32) (q : HoldBack) :
    Prop where
  final_ruled : ∀ e ∈ q.entries, e.final = true → ⟨e.id, e.stamp⟩ ∈ ruled
  log_ruled : ∀ m ∈ log, ∃ s, ⟨m.id, s⟩ ∈ ruled
  low : ∀ m ∈ log, ∀ s, ⟨m.id, s⟩ ∈ ruled → s.number ≤ latest
  passed : ∀ m ∈ log, ∀ s, ⟨m.id, s⟩ ∈ ruled → ∀ e ∈ q.entries, e.NotBefore s
  sorted : log.Pairwise fun m k =>
    ∀ s t, ⟨m.id, s⟩ ∈ ruled → ⟨k.id, t⟩ ∈ ruled → t.precedes s = false

namespace InOrder

variable {ruled : List Decision} {log : List Message} {latest : UInt32} {q : HoldBack}

theorem start (ruled : List Decision) (latest : UInt32) : InOrder ruled [] latest .empty where
  final_ruled _ he := by cases he
  log_ruled _ hm := by cases hm
  low _ hm := by cases hm
  passed _ hm := by cases hm
  sorted := .nil

/-- A new entry has a greater number than everything delivered. -/
theorem enter (h : InOrder ruled log latest q) {m : Message} {s : Stamp}
    (absent : m.id ∉ q.waiting) (next : Agreement.after? latest = some s.number) :
    InOrder ruled log s.number (q.add m s).1 := by
  have above {n : UInt32} (le : n ≤ latest) : n < s.number := Agreement.lt_after next le
  rw [HoldBack.add_eq s absent]
  constructor
  case final_ruled =>
    intro e he final
    rcases List.mem_append.mp he with old | new
    · exact h.final_ruled e old final
    · rw [List.mem_singleton.mp new] at final
      cases final
  case log_ruled => exact h.log_ruled
  case low => exact fun k hk t ruling => UInt32.le_of_lt (above (h.low k hk t ruling))
  case passed =>
    intro k hk t ruling e he
    rcases List.mem_append.mp he with old | new
    · exact h.passed k hk t ruling e old
    · rw [List.mem_singleton.mp new, HoldBack.Entry.notBefore_open rfl]
      exact above (h.low k hk t ruling)
  case sorted => exact h.sorted

/-- An entry is settled once, and above the number that it had before. -/
theorem settle (h : InOrder ruled log latest q) (sound : q.Sound) (consistent : Consistent ruled)
    {d : Decision} (ruling : d ∈ ruled)
    (above : ∀ e ∈ q.entries, e.id = d.id → e.final = false → e.stamp.number ≤ d.stamp.number) :
    InOrder ruled log (max latest d.stamp.number) (q.settle d.id d.stamp).1 where
  final_ruled e he final := by
    rcases (HoldBack.mem_settle sound).mp he with ⟨old, -⟩ | ⟨x, -, about, rfl⟩
    · exact h.final_ruled e old final
    · change (⟨x.id, d.stamp⟩ : Decision) ∈ ruled
      rwa [about]
  log_ruled := h.log_ruled
  low m hm s known := UInt32.le_trans (h.low m hm s known) (Agreement.le_max _ _).1
  passed m hm s known e he := by
    rcases (HoldBack.mem_settle sound).mp he with ⟨old, -⟩ | ⟨x, hx, about, rfl⟩
    · exact h.passed m hm s known e old
    · refine (h.passed m hm s known x hx).settled (above x hx about) fun final => ?_
      exact congrArg Decision.stamp (consistent _ (h.final_ruled x hx final) d ruling about)
  sorted := h.sorted

/-- What a release frees comes after everything delivered before, in the order of the final stamps,
and before everything that it keeps. -/
theorem release (h : InOrder ruled log latest q) (consistent : Consistent ruled)
    (within : ∀ e ∈ q.entries, e.stamp.number ≤ latest) :
    InOrder ruled (log ++ q.release.2) latest q.release.1 := by
  have stays : ∀ e ∈ q.release.1.entries, e ∈ q.entries :=
    fun e he => HoldBack.mem_entries_iff.mpr (.inr he)
  have ruling : ∀ e ∈ q.freed, e ∈ q.entries ∧ e.final = true ∧
      ∀ s, ⟨e.message.id, s⟩ ∈ ruled → s = e.stamp := by
    intro e freed
    have waits : e ∈ q.entries := HoldBack.mem_entries_iff.mpr (.inl freed)
    have final := HoldBack.final_of_mem_freed freed
    refine ⟨waits, final, fun s known => ?_⟩
    exact congrArg Decision.stamp (consistent _ known _ (h.final_ruled e waits final) rfl)
  rw [HoldBack.release_eq] at stays ⊢
  constructor
  case final_ruled => exact fun e he => h.final_ruled e (stays e he)
  case log_ruled =>
    intro m hm
    rcases List.mem_append.mp hm with old | new
    · exact h.log_ruled m old
    · obtain ⟨e, freed, rfl⟩ := List.mem_map.mp new
      obtain ⟨waits, final, -⟩ := ruling e freed
      exact ⟨e.stamp, h.final_ruled e waits final⟩
  case low =>
    intro m hm s known
    rcases List.mem_append.mp hm with old | new
    · exact h.low m old s known
    · obtain ⟨e, freed, rfl⟩ := List.mem_map.mp new
      obtain ⟨waits, -, stamp⟩ := ruling e freed
      rw [stamp s known]
      exact within e waits
  case passed =>
    intro m hm s known e he
    rcases List.mem_append.mp hm with old | new
    · exact h.passed m old s known e (stays e he)
    · obtain ⟨x, freed, rfl⟩ := List.mem_map.mp new
      obtain ⟨-, final, stamp⟩ := ruling x freed
      rw [stamp s known]
      exact HoldBack.Entry.notBefore_of_not_precedes final (HoldBack.kept_behind_freed freed he)
  case sorted =>
    refine List.pairwise_append.mpr ⟨h.sorted, ?_, fun m hm k hk s t first second => ?_⟩
    · refine List.pairwise_map.mpr ((HoldBack.arranged_freed q).imp_of_mem ?_)
      intro x y hx hy order s t first second
      obtain ⟨-, final, stamp⟩ := ruling x hx
      obtain ⟨-, final', stamp'⟩ := ruling y hy
      rw [stamp s first, stamp' t second]
      exact (HoldBack.Entry.notBefore_final final').mp
        (HoldBack.Entry.notBefore_of_not_precedes final order)
    · obtain ⟨e, freed, rfl⟩ := List.mem_map.mp hk
      obtain ⟨waits, final, stamp⟩ := ruling e freed
      rw [stamp t second]
      exact (HoldBack.Entry.notBefore_final final).mp (h.passed m hm s first e waits)

end InOrder

namespace Agreement

variable {a b : Agreement} {ruled : List Decision} {log : List Message}

theorem inOrder_adopt (h : InOrder ruled log a.latest a.queue) (coherent : a.Coherent)
    (consistent : Consistent ruled) {d : Decision} (ruling : d ∈ ruled)
    (above : ∀ e ∈ a.queue.entries, e.id = d.id → e.final = false →
      e.stamp.number ≤ d.stamp.number) :
    InOrder ruled (log ++ (a.adopt d).2) (a.adopt d).1.latest (a.adopt d).1.queue := by
  have sound := coherent.sound
  have settled := h.settle sound consistent ruling above
  rw [adopt_snd sound, adopt_latest, adopt_queue sound, HoldBack.adopt]
  obtain ⟨latest_le, stamp_le⟩ := le_max a.latest d.stamp.number
  split
  · refine settled.release consistent fun e he => ?_
    rcases (HoldBack.mem_settle sound).mp he with ⟨old, -⟩ | ⟨x, -, -, rfl⟩
    · exact UInt32.le_trans (coherent.latest_le e old) latest_le
    · exact stamp_le
  · rw [List.append_nil]
    exact ⟨h.final_ruled, h.log_ruled, settled.low, h.passed, h.sorted⟩

theorem inOrder_adoptAll (h : InOrder ruled log a.latest a.queue) (coherent : a.Coherent)
    (consistent : Consistent ruled) {ds : List Decision} (rulings : ∀ d ∈ ds, d ∈ ruled)
    (above : ∀ d ∈ ds, ∀ e ∈ a.queue.entries, e.id = d.id → e.final = false →
      e.stamp.number ≤ d.stamp.number) :
    InOrder ruled (log ++ (a.adoptAll ds).2) (a.adoptAll ds).1.latest (a.adoptAll ds).1.queue := by
  induction ds generalizing a log with
  | nil => simpa [adoptAll] using h
  | cons d rest ih =>
    obtain ⟨ruling, later⟩ := List.forall_mem_cons.mp rulings
    obtain ⟨here, others⟩ := List.forall_mem_cons.mp above
    have first := inOrder_adopt h coherent consistent ruling here
    -- an entry that is open now was open before
    have last := ih first (coherent.adopt d) later fun f hf e he about provisional => by
      rw [adopt_queue coherent.sound] at he
      obtain ⟨-, ⟨old, -⟩ | ⟨x, -, -, rfl⟩⟩ := (HoldBack.mem_adopt_iff coherent.sound d).mp he
      · exact others f hf e old about provisional
      · cases provisional
    rwa [List.append_assoc] at last

theorem inOrder_prepared (h : InOrder ruled log a.latest a.queue) (coherent : a.Coherent)
    {operation : Operation} {proposal : Option Proposal}
    (prepares : Preparation a operation proposal b) : InOrder ruled log b.latest b.queue := by
  cases prepares with
  | same => exact h
  | @drafted payload created number next_created next =>
    exact h.enter (m := ⟨⟨a.self, created⟩, payload⟩) (s := ⟨number, a.self⟩)
      (coherent.absent_drafted rfl next_created) next
  | @answered m number foreign unanswered _ next =>
    exact h.enter (s := ⟨number, a.self⟩) (coherent.absent_answered foreign unanswered) next
  | tallied p =>
    rw [tallied_with]
    exact h
  | without => exact h

theorem inOrder_perform (h : InOrder ruled log a.latest a.queue) (coherent : a.Coherent)
    (consistent : Consistent ruled) {assigned : List Proposal} {earlier : List Decision}
    (numbered : Numbered assigned earlier a) (voted : OwnVoted assigned a) {operation : Operation}
    (unforged : operation.Unforged a.self) (rulings : ∀ d ∈ a.rules operation, d ∈ ruled)
    (above : ∀ d, operation = .follow d → d.id ∈ a.queue.waiting →
      ∀ x ∈ assigned, x.id = d.id → x.stamp.number ≤ d.stamp.number) :
    InOrder ruled (log ++ a.delivers operation) (a.perform operation).latest
      (a.perform operation).queue := by
  have prepares := a.preparation operation
  have ready : InOrder ruled log (a.ready operation).latest (a.ready operation).queue := by
    have taken := inOrder_prepared h coherent prepares
    rw [Agreement.ready, closeAll_eq]
    exact taken
  rw [(a.perform_eq operation).1, (a.perform_eq operation).2]
  refine inOrder_adoptAll ready (coherent.ready operation) consistent rulings ?_
  intro d hd e he about provisional
  rcases due_of_mem_rules hd with rfl | ⟨-, due⟩
  · have waits : d.id ∈ a.queue.waiting := coherent.sound.mem_waiting.mpr ⟨e, he, about⟩
    exact above d rfl waits _ (numbered.open_assigned e he provisional) about
  · have made := (numbered.ready coherent operation).open_assigned e he provisional
    exact (numbered.prepared coherent prepares).le_due (voted.prepared unforged prepares) due
      made about

/-- What the environment owes to a member for its deliveries to be in order. -/
structure Honest (a : Agreement) (operations : List Operation) : Prop where
  unforged : ∀ operation ∈ operations, operation.Unforged a.self
  /-- A decision on a message that waits is no less than the proposal that was made for it. -/
  above : ∀ before d after, operations = before ++ .follow d :: after →
    d.id ∈ (a.run before).queue.waiting →
    ∀ x ∈ a.assignments before, x.id = d.id → x.stamp.number ≤ d.stamp.number
  consistent : ∀ d e, .follow d ∈ operations → .follow e ∈ operations → d.id = e.id → d = e

/-- Decisions on foreign messages agree by assumption, and own messages are decided once. -/
theorem Honest.consistent_rulings {self : MemberId} {members : List MemberId}
    {operations : List Operation} (h : Honest (start self members) operations) :
    Consistent ((start self members).rulings operations) := by
  have coherent := Coherent.start self members
  have own := (OwnOnce.start self members).run coherent h.unforged
  intro d hd e he same
  by_cases place : d.id.sender = self
  · refine own.once d hd e he ?_ same
    rwa [run_self]
  · exact h.consistent d e (follow_of_mem_rulings coherent hd place)
      (follow_of_mem_rulings coherent he (same ▸ place)) same

theorem Honest.inOrder {self : MemberId} {members : List MemberId} {operations : List Operation}
    (h : Honest (start self members) operations) {calls : List Operation}
    (early : calls <+: operations) :
    InOrder ((start self members).rulings operations) ((start self members).deliveries calls)
      ((start self members).run calls).latest ((start self members).run calls).queue := by
  induction calls using List.reverseRecOn with
  | nil => exact .start _ _
  | append_singleton calls call ih =>
    obtain ⟨after, rfl⟩ := early
    have coherent := Coherent.start self members
    have unforged := h.unforged
    simp only [List.append_assoc, List.mem_append, or_imp, forall_and] at unforged
    have numbered := (Numbered.start self members).run coherent calls
    have voted := (OwnVoted.start self members).run unforged.1
    rw [List.nil_append] at numbered voted
    have rulings : ∀ d ∈ ((start self members).run calls).rules call,
        d ∈ (start self members).rulings (calls ++ [call] ++ after) := by
      intro d hd
      rw [rulings_append, rulings_append]
      exact List.mem_append_left _ (List.mem_append_right _ (List.mem_append_left _ hd))
    have own : call.Unforged ((start self members).run calls).self := by
      rw [run_self]
      exact unforged.2.1 call List.mem_cons_self
    have above : ∀ d, call = .follow d → d.id ∈ ((start self members).run calls).queue.waiting →
        ∀ x ∈ (start self members).assignments calls, x.id = d.id →
          x.stamp.number ≤ d.stamp.number := by
      rintro d rfl
      exact h.above calls d after (by simp)
    have next := inOrder_perform (ih ⟨call :: after, by simp⟩) (coherent.run calls)
      h.consistent_rulings numbered voted own rulings above
    rw [run_concat, deliveries_append]
    simpa [deliveries] using next

/-- Every message is delivered with one final stamp, and deliveries come in the order of these stamps.
Whenever messages have been delivered, no entry that waits and no message that is taken in from then
on can be delivered with a smaller stamp. -/
theorem delivered_in_order {self : MemberId} {members : List MemberId}
    {operations : List Operation} (honest : Honest (start self members) operations) :
    let a := start self members
    (∀ m ∈ a.deliveries operations, ∃! s, ⟨m.id, s⟩ ∈ a.rulings operations) ∧
    (a.deliveries operations).Pairwise (fun m k => ∀ s t, ⟨m.id, s⟩ ∈ a.rulings operations →
      ⟨k.id, t⟩ ∈ a.rulings operations → t.precedes s = false) ∧
    ∀ before after, operations = before ++ after → ∀ m ∈ a.deliveries before,
      ∀ s, ⟨m.id, s⟩ ∈ a.rulings operations →
        (∀ e ∈ (a.run before).queue.entries, e.NotBefore s) ∧
        s.number ≤ (a.run before).latest ∧
        ∀ k ∈ (a.run before).deliveries after, ∀ t, ⟨k.id, t⟩ ∈ a.rulings operations →
          t.precedes s = false := by
  intro a
  have whole := honest.inOrder List.prefix_rfl
  refine ⟨fun m hm => ?_, whole.sorted, fun before after split m hm s ruling => ?_⟩
  · obtain ⟨s, ruling⟩ := whole.log_ruled m hm
    refine ⟨s, ruling, fun t other => ?_⟩
    exact congrArg Decision.stamp (honest.consistent_rulings _ other _ ruling rfl)
  · have here := honest.inOrder ⟨after, split.symm⟩
    refine ⟨here.passed m hm s ruling, here.low m hm s ruling, fun k hk t later => ?_⟩
    have sorted := whole.sorted
    conv at sorted => arg 2; rw [split]
    rw [deliveries_append] at sorted
    exact (List.pairwise_append.mp sorted).2.2 m hm k hk s t ruling later

/-- The own message is decided as 5 with the smaller member while the other one is still open with the
number 5, so it waits until that one is decided. -/
theorem delivered_in_order_of_equal_numbers :
    let own : Message := ⟨⟨⟨3⟩, 1⟩, 300⟩
    let other : Message := ⟨⟨⟨1⟩, 1⟩, 100⟩
    let a := start ⟨3⟩ [⟨1⟩, ⟨2⟩, ⟨3⟩]
    let calls : List Operation := [.create own.payload, .follow ⟨⟨⟨2⟩, 99⟩, ⟨4, ⟨2⟩⟩⟩,
      .propose other, .count ⟨own.id, ⟨1, ⟨1⟩⟩⟩, .count ⟨own.id, ⟨5, ⟨2⟩⟩⟩,
      .follow ⟨other.id, ⟨5, ⟨1⟩⟩⟩]
    Honest a calls ∧ a.deliveries (calls.take 5) = [] ∧ a.deliveries calls = [other, own] ∧
      (∃! s, ⟨own.id, s⟩ ∈ a.rulings calls) ∧
      ∀ s t, ⟨other.id, s⟩ ∈ a.rulings calls → ⟨own.id, t⟩ ∈ a.rulings calls →
        t.precedes s = false := by
  intro own other a calls
  have given : ∀ d, .follow d ∈ calls →
      d = ⟨⟨⟨2⟩, 99⟩, ⟨4, ⟨2⟩⟩⟩ ∨ d = ⟨other.id, ⟨5, ⟨1⟩⟩⟩ := by
    simp [calls]
  have honest : Honest a calls := by
    refine ⟨by decide, fun before d after split => ?_, fun d e hd he same => ?_⟩
    · simp only [calls, List.cons_eq_append_iff, List.cons.injEq, reduceCtorEq, false_and,
        and_false, Operation.follow.injEq, List.nil_eq, List.append_eq_nil_iff, exists_const,
        or_false, ↓existsAndEq, true_and, false_or] at split
      obtain ⟨before, rfl, ⟨rfl, rfl, -⟩ | ⟨rfl, rfl, -⟩⟩ := split <;> decide +kernel
    · rcases given d hd with rfl | rfl <;> rcases given e he with rfl | rfl
      · rfl
      · cases same
      · cases same
      · rfl
  have delivered : a.deliveries calls = [other, own] := by decide +kernel
  obtain ⟨once, sorted, -⟩ := delivered_in_order honest
  refine ⟨honest, by decide +kernel, delivered, once own (delivered ▸ by simp), ?_⟩
  exact List.rel_of_pairwise_cons (delivered ▸ sorted) List.mem_cons_self

end Agreement

end Concord
