import Concord.Proofs.Retry.Deeds
import Concord.Proofs.Retry.Schedule
import Concord.Run.Stage
import Concord.Time.Timer
import Mathlib.Data.List.Basic

/-!
When a sending loop owes its next round, read off what has happened so far. After a round with mail
the next is due when the pause is over, as a timer tells it; after a round that found nothing it is
due as soon as something is put.
-/

namespace Concord

/-- What happens to an outbox and its loop: the loop begins, something is done to the outbox, a
round is taken. -/
inductive Note (α : Type) where
  | begun (time : Instant)
  | deed (time : Instant) (deed : Deed α)
  | round (time : Instant) (mail : List (Address × Bytes))

namespace Note

variable {α : Type}

def deed? : Note α → Option (Deed α)
  | .deed _ d => some d
  | _ => none

/-- When something was put for someone. -/
def fed? : Note α → Option Instant
  | .deed time d => if d.feeds then some time else none
  | _ => none

def mail : Note α → List Sent
  | .round time mail => Sent.all time mail
  | _ => []

def isRound : Note α → Bool
  | .round _ _ => true
  | _ => false

def deeds (h : List (Note α)) : List (Deed α) := h.filterMap deed?

def feedings (h : List (Note α)) : List Instant := h.filterMap fed?

def tally (n : Nat) : Note α → Nat
  | .round _ [] => 0
  | .round _ (_ :: _) => n + 1
  | _ => n

/-- The number of rounds since the last one that found nothing. -/
def streak (h : List (Note α)) : Nat := h.foldl tally 0

/-- No round has been taken. -/
def Quiet (h : List (Note α)) : Prop := ∀ n ∈ h, n.isRound = false

/-- The last round of a history, with what came before it and what has come since. -/
def Latest (h earlier : List (Note α)) (time : Instant) (mail : List (Address × Bytes))
    (since : List (Note α)) : Prop :=
  h = earlier ++ .round time mail :: since ∧ Quiet since

theorem Quiet.concat {h : List (Note α)} (quiet : Quiet h) {n : Note α}
    (other : n.isRound = false) : Quiet (h ++ [n]) := by
  intro m hm
  rcases List.mem_append.mp hm with old | new
  · exact quiet m old
  · exact List.mem_singleton.mp new ▸ other

theorem Latest.concat {h earlier since : List (Note α)} {time : Instant}
    {mail : List (Address × Bytes)} (latest : Latest h earlier time mail since) {n : Note α}
    (other : n.isRound = false) : Latest (h ++ [n]) earlier time mail (since ++ [n]) :=
  ⟨by rw [latest.1, List.append_assoc, List.cons_append], latest.2.concat other⟩

theorem latest_concat (h : List (Note α)) (time : Instant) (mail : List (Address × Bytes)) :
    Latest (h ++ [.round time mail]) h time mail [] :=
  ⟨rfl, fun _ hn => by cases hn⟩

theorem Latest.not_quiet {h earlier since : List (Note α)} {time : Instant}
    {mail : List (Address × Bytes)} (latest : Latest h earlier time mail since) : ¬ Quiet h := by
  intro quiet
  have := quiet (.round time mail) (by rw [latest.1]; simp)
  cases this

/-- A history has one last round. -/
theorem Latest.unique {h earlier since earlier' since' : List (Note α)} {time time' : Instant}
    {mail mail' : List (Address × Bytes)} (latest : Latest h earlier time mail since)
    (latest' : Latest h earlier' time' mail' since') :
    earlier' = earlier ∧ time' = time ∧ mail' = mail ∧ since' = since := by
  obtain ⟨split, quiet⟩ := latest
  obtain ⟨split', quiet'⟩ := latest'
  have same := split.symm.trans split'
  clear split split'
  induction earlier generalizing earlier' with
  | nil =>
    cases earlier' with
    | nil =>
      cases same
      exact ⟨rfl, rfl, rfl, rfl⟩
    | cons first rest =>
      cases same
      have := quiet (.round time' mail') (by simp)
      cases this
  | cons first rest ih =>
    cases earlier' with
    | nil =>
      cases same
      have := quiet' (.round time mail) (by simp)
      cases this
    | cons first' rest' =>
      injection same with head tail
      obtain ⟨rfl, same⟩ := ih tail
      exact ⟨head ▸ rfl, same⟩

theorem begun_of_concat {h : List (Note α)} {now t : Instant} {d : Deed α}
    (begun : .begun t ∈ h ++ [.deed now d]) : .begun t ∈ h := by
  rcases List.mem_append.mp begun with old | new
  · exact old
  · cases List.mem_singleton.mp new

theorem Quiet.foldl_tally {l : List (Note α)} (quiet : Quiet l) (n : Nat) :
    l.foldl tally n = n := by
  induction l with
  | nil => rfl
  | cons note rest ih =>
    obtain ⟨here, others⟩ := List.forall_mem_cons.mp quiet
    cases note with
    | round => cases here
    | begun | deed => exact ih others

theorem streak_concat (h : List (Note α)) {n : Note α} (other : n.isRound = false) :
    streak (h ++ [n]) = streak h := by
  rw [streak, List.foldl_append]
  exact Quiet.foldl_tally (fun m hm => List.mem_singleton.mp hm ▸ other) _

theorem Latest.streak_eq {h earlier since : List (Note α)} {time : Instant}
    {mail : List (Address × Bytes)} (latest : Latest h earlier time mail since) :
    streak h = if mail = [] then 0 else streak earlier + 1 := by
  obtain ⟨rfl, quiet⟩ := latest
  rw [streak, List.foldl_append, List.foldl_cons, quiet.foldl_tally]
  cases mail <;> rfl

theorem feedings_concat (h : List (Note α)) (n : Note α) :
    feedings (h ++ [n]) = feedings h ++ n.fed?.toList := by
  rw [feedings, feedings, List.filterMap_append]
  cases fed : n.fed? <;> simp [fed]

theorem deeds_concat (h : List (Note α)) (n : Note α) :
    deeds (h ++ [n]) = deeds h ++ n.deed?.toList := by
  rw [deeds, deeds, List.filterMap_append]
  cases deed : n.deed? <;> simp [deed]

/-- Whatever is put now does not make it late. -/
theorem forall_feedings_concat {since : List (Note α)} {now : Instant}
    (fed : ∀ t ∈ feedings since, now = t) (d : Deed α) :
    ∀ t ∈ feedings (since ++ [.deed now d]), now = t := by
  intro t ht
  rw [feedings_concat] at ht
  rcases List.mem_append.mp ht with old | new
  · exact fed t old
  · have fed : (if d.feeds then some now else none) = some t := Option.mem_toList.mp new
    split at fed
    · exact Option.some.inj fed
    · cases fed

variable [Timer]

/-- When the pause is over that follows a round with mail. -/
def pauseEnd (s : Schedule) (earlier : List (Note α)) (time : Instant) : Instant :=
  Instant.roundUp (Instant.after time (s.pause (streak earlier)))

variable {s : Schedule} {earlier : List (Note α)} {time : Instant}

/-- A pause within reach of the timers is not cut short. -/
theorem le_pauseEnd (near : (s.pause (streak earlier)).nanos ≤ (Timer.reach).nanos) :
    time + (s.pause (streak earlier)).nanos ≤ pauseEnd s earlier time := by
  rw [pauseEnd, Instant.after_eq near]
  exact Instant.le_roundUp _

theorem pauseEnd_eq (near : (s.pause (streak earlier)).nanos ≤ (Timer.reach).nanos)
    (told : Instant.roundUp (time + (s.pause (streak earlier)).nanos) =
      time + (s.pause (streak earlier)).nanos) :
    pauseEnd s earlier time = time + (s.pause (streak earlier)).nanos := by
  rw [pauseEnd, Instant.after_eq near, told]

/-- A round at an instant comes when it is due. -/
inductive Timely (s : Schedule) (h : List (Note α)) (now : Instant) : Prop where
  | first (quiet : Quiet h) (begun : .begun now ∈ h) (once : ∀ t, .begun t ∈ h → now = t)
  | paused {earlier time mail since} (latest : Latest h earlier time mail since)
      (mailed : mail ≠ []) (elapsed : now = pauseEnd s earlier time)
  | called {earlier time since} (latest : Latest h earlier time [] since)
      (fed : ∀ t ∈ feedings since, now = t) (unfed : feedings since = [] → now = time)

namespace Timely

variable {s : Schedule} {h : List (Note α)} {now : Instant}

theorem deed (timely : Timely s h now) (d : Deed α) : Timely s (h ++ [.deed now d]) now := by
  cases timely with
  | first quiet begun once =>
    exact .first (quiet.concat rfl) (List.mem_append_left _ begun)
      fun t ht => once t (begun_of_concat ht)
  | paused latest mailed elapsed => exact .paused (latest.concat rfl) mailed elapsed
  | called latest fed unfed =>
    refine .called (latest.concat rfl) (forall_feedings_concat fed d) fun none => unfed ?_
    rw [feedings_concat] at none
    exact (List.append_eq_nil_iff.mp none).1

theorem of_quiet (timely : Timely s h now) (quiet : Quiet h) :
    .begun now ∈ h ∧ ∀ t, .begun t ∈ h → now = t := by
  cases timely with
  | first _ begun once => exact ⟨begun, once⟩
  | paused latest | called latest => exact absurd quiet latest.not_quiet

theorem of_mail (timely : Timely s h now) {earlier since : List (Note α)} {time : Instant}
    {mail : List (Address × Bytes)} (latest : Latest h earlier time mail since)
    (mailed : mail ≠ []) : now = pauseEnd s earlier time := by
  cases timely with
  | first quiet => exact absurd quiet latest.not_quiet
  | paused latest' _ elapsed =>
    obtain ⟨rfl, rfl, -⟩ := latest.unique latest'
    exact elapsed
  | called latest' =>
    obtain ⟨-, -, rfl, -⟩ := latest'.unique latest
    exact absurd rfl mailed

theorem of_none (timely : Timely s h now) {earlier since : List (Note α)} {time : Instant}
    (latest : Latest h earlier time [] since) :
    (∀ t ∈ feedings since, now = t) ∧ (feedings since = [] → now = time) := by
  cases timely with
  | first quiet => exact absurd quiet latest.not_quiet
  | paused latest' mailed =>
    obtain ⟨-, -, rfl, -⟩ := latest.unique latest'
    exact absurd rfl mailed
  | called latest' fed unfed =>
    obtain ⟨-, rfl, -, rfl⟩ := latest.unique latest'
    exact ⟨fed, unfed⟩

end Timely

end Note

end Concord
