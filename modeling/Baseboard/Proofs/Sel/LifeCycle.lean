import Baseboard.Sel.Erasure
import Mathlib.Data.List.Induction

/-!
# Baseboard.Proofs.Sel.LifeCycle

The life cycle of an erasure that is called by anyone and in any order, and not only by the
clearing of the log.

`Passes` is the table of what a call makes of the phase of an erasure, and every call follows
it (`passes_call`).  What an erasure was told last decides whether it is complete
(`phase_afterCalls_eq_completed_iff`): a report of progress that comes late, or twice, takes
it back into progress.

Main statement: `lifeCycle_afterCalls`.
-/

namespace Baseboard.Sel.Erasure

/-! ## Calls -/

/-- A call on an erasure: it is asked for its next command, or told how the last one was
answered. -/
inductive Call where
  | next (reservation : Reservation)
  | advance (progress : EraseProgress)
  | lost (failure : Failure)
  deriving DecidableEq, Repr

/-- Whether a call counts against the budget. -/
def Call.counts : Call → Bool
  | next _ => false
  | _ => true

/-- The progress that a call reports, if it does. -/
def Call.report? : Call → Option EraseProgress
  | advance progress => some progress
  | _ => none

/-- The erasure after a call. -/
def call (e : Erasure) : Call → Erasure
  | .next reservation => (e.next reservation).2
  | .advance progress => (e.advance progress).2
  | .lost failure => (e.lose failure).2

/-- The erasure after some calls. -/
def afterCalls (e : Erasure) (calls : List Call) : Erasure := calls.foldl call e

theorem afterCalls_append (e : Erasure) (earlier later : List Call) :
    e.afterCalls (earlier ++ later) = (e.afterCalls earlier).afterCalls later :=
  List.foldl_append

theorem afterCalls_concat (e : Erasure) (calls : List Call) (c : Call) :
    e.afterCalls (calls ++ [c]) = (e.afterCalls calls).call c :=
  e.afterCalls_append calls [c]

/-! ## One call -/

/-- What a call makes of the phase of an erasure. -/
inductive Passes : ErasePhase → Call → ErasePhase → Prop where
  | started (reservation : Reservation) : Passes .idle (.next reservation) .requested
  | polled {phase : ErasePhase} (reservation : Reservation) (h : phase ≠ .idle) :
      Passes phase (.next reservation) phase
  | progressed (phase : ErasePhase) : Passes phase (.advance .inProgress) .inProgress
  | finished (phase : ErasePhase) : Passes phase (.advance .completed) .completed
  /-- A start that was refused is made again. -/
  | refused (failure : Failure) : Passes .requested (.lost failure) .idle
  | kept {phase : ErasePhase} (failure : Failure) (h : phase ≠ .requested) :
      Passes phase (.lost failure) phase

theorem passes_call (e : Erasure) (c : Call) : Passes e.phase c (e.call c).phase := by
  cases c with
  | next reservation =>
      by_cases hidle : e.phase = .idle
      · simp only [call, next, sent, hidle]
        exact .started reservation
      · simp only [call, next, sent, if_neg hidle]
        exact .polled reservation hidle
  | advance progress =>
      cases progress with
      | inProgress => exact .progressed e.phase
      | completed => exact .finished e.phase
  | lost failure =>
      by_cases hrequested : e.phase = .requested
      · simp only [call, lose, hrequested]
        exact .refused failure
      · simp only [call, lose, if_neg hrequested]
        exact .kept failure hrequested

/-- A call that reports nothing neither completes an erasure nor takes this back. -/
theorem Passes.eq_completed_iff {before after : ErasePhase} {c : Call} (h : Passes before c after)
    (hnone : c.report? = none) : after = .completed ↔ before = .completed := by
  cases h with
  | started => simp
  | polled => rfl
  | progressed => contradiction
  | finished => contradiction
  | refused => simp
  | kept => rfl

/-- A report decides by itself whether an erasure is complete. -/
theorem Passes.eq_completed_iff_of_report {before after : ErasePhase} {c : Call}
    {progress : EraseProgress} (h : Passes before c after) (hreport : c.report? = some progress) :
    after = .completed ↔ progress = .completed := by
  cases h with
  | progressed => cases hreport; simp
  | finished => cases hreport; simp
  | started => contradiction
  | polled => contradiction
  | refused => contradiction
  | kept => contradiction

/-- Only a report that it is complete completes an erasure. -/
theorem Passes.eq_advance_completed {before : ErasePhase} {c : Call}
    (h : Passes before c .completed) (hbefore : before ≠ .completed) :
    c = .advance .completed := by
  cases h with
  | finished => rfl
  | polled => contradiction
  | kept => contradiction

/-- Only a start that lost its reservation is taken back. -/
theorem Passes.eq_requested {before : ErasePhase} {c : Call} (h : Passes before c .idle)
    (hbefore : before ≠ .idle) : before = .requested ∧ ∃ failure, c = .lost failure := by
  cases h with
  | refused failure => exact ⟨rfl, failure, rfl⟩
  | polled => contradiction
  | kept => contradiction

theorem polls_call (e : Erasure) (c : Call) :
    (e.call c).polls = e.polls + if c.counts then 1 else 0 := by
  cases c with
  | next reservation => exact e.polls_sent
  | advance progress => cases progress <;> rfl
  | lost failure => rfl

/-! ## Any calls -/

/-- The reports that calls bring, in order. -/
def reports (calls : List Call) : List EraseProgress := calls.filterMap Call.report?

/-- Reports and losses are counted, one by one. -/
theorem polls_afterCalls (e : Erasure) (calls : List Call) :
    (e.afterCalls calls).polls = e.polls + calls.countP Call.counts := by
  induction calls using List.reverseRecOn with
  | nil => rfl
  | append_singleton calls c ih =>
      rw [afterCalls_concat, polls_call, ih, List.countP_append, List.countP_singleton,
        Nat.add_assoc]

/-- The last report decides whether an erasure is complete, and without any it stays as it
was. -/
theorem phase_afterCalls_eq_completed_iff (e : Erasure) (calls : List Call) :
    (e.afterCalls calls).phase = .completed ↔
      (reports calls).getLast? = some .completed ∨
        (reports calls = [] ∧ e.phase = .completed) := by
  induction calls using List.reverseRecOn with
  | nil => simp [afterCalls, reports]
  | append_singleton calls c ih =>
      have hpasses := (e.afterCalls calls).passes_call c
      rw [afterCalls_concat, reports, List.filterMap_append, ← reports]
      cases hreport : c.report? with
      | none => simpa [hreport] using (hpasses.eq_completed_iff hreport).trans ih
      | some progress => simpa [hreport] using hpasses.eq_completed_iff_of_report hreport

/-- The life of an erasure after some calls, and what any further call makes of it. -/
structure LifeCycle (calls : List Call) (e : Erasure) : Prop where
  polls_eq : e.polls = calls.countP Call.counts
  completed_iff : e.phase = .completed ↔ (reports calls).getLast? = some .completed
  /-- Only a report that it is complete completes it. -/
  completed_by : ∀ c, e.phase ≠ .completed → (e.call c).phase = .completed →
    c = .advance .completed
  /-- It is idle again only after a start that lost its reservation. -/
  idle_by : ∀ c, e.phase ≠ .idle → (e.call c).phase = .idle →
    e.phase = .requested ∧ ∃ failure, c = .lost failure
  /-- When it is complete it stays so, as long as no progress is reported. -/
  stays : e.phase = .completed → ∀ later, .advance .inProgress ∉ later →
    (e.afterCalls later).phase = .completed
  /-- A report of progress takes it back into progress, however late it comes. -/
  reopened : e.phase = .completed → (e.call (.advance .inProgress)).phase = .inProgress

/-- Reports without progress say that the erasure is complete. -/
theorem eq_completed_of_mem_reports {calls : List Call} {progress : EraseProgress}
    (h : .advance .inProgress ∉ calls) (hmem : progress ∈ reports calls) :
    progress = .completed := by
  obtain ⟨c, hc, hreport⟩ := List.mem_filterMap.mp hmem
  cases c with
  | advance reported =>
      obtain rfl := Option.some.inj hreport
      cases reported with
      | inProgress => exact absurd hc h
      | completed => rfl
  | next => contradiction
  | lost => contradiction

/-- Whatever is called, an erasure follows its life cycle. -/
theorem lifeCycle_afterCalls (interval maxPolls : Nat) (calls : List Call) :
    LifeCycle calls ((start interval maxPolls).afterCalls calls) := by
  have hpasses := ((start interval maxPolls).afterCalls calls).passes_call
  refine ⟨?_, ?_, fun c hbefore hafter => ?_, fun c hbefore hafter => ?_,
    fun hcompleted later hlater => ?_, fun _ => rfl⟩
  · rw [polls_afterCalls]
    exact Nat.zero_add _
  · rw [phase_afterCalls_eq_completed_iff]
    simp [start]
  · exact (hafter ▸ hpasses c).eq_advance_completed hbefore
  · exact (hafter ▸ hpasses c).eq_requested hbefore
  · rw [phase_afterCalls_eq_completed_iff]
    cases hlast : (reports later).getLast? with
    | none => exact .inr ⟨List.getLast?_eq_none_iff.mp hlast, hcompleted⟩
    | some progress =>
        have hmem := List.mem_of_getLast? hlast
        exact .inl (congrArg some (eq_completed_of_mem_reports hlater hmem))

/-- An erasure that was complete is in progress again, after one more report. -/
theorem completed_reopened :
    let calls : List Call := [.next ⟨1⟩, .advance .completed]
    ((start 10 5).afterCalls calls).phase = .completed ∧
      ((start 10 5).afterCalls (calls ++ [.advance .inProgress])).phase = .inProgress := by
  decide

end Baseboard.Sel.Erasure
