import Baseboard.Command
import Baseboard.Failure
import Baseboard.Sel.Info

/-!
# Baseboard.Sel.Erasure

The erasure of the event log, step by step.  An erasure is started once and then
looked at until the controller reports that it is complete.  Every command
counts against one budget, the one that starts the erasure included.  A start
that the controller refused, because the reservation was lost, is made again.
-/

namespace Baseboard.Sel

/-- Where an erasure stands. -/
inductive ErasePhase where
  /-- Nothing was sent. -/
  | idle
  /-- The start was sent and no progress was reported. -/
  | requested
  | inProgress
  | completed
  deriving DecidableEq, Repr

/-- An erasure.  Times are in milliseconds. -/
structure Erasure where
  phase : ErasePhase
  /-- The commands that were answered. -/
  polls : Nat
  /-- The most commands that may be sent. -/
  maxPolls : Nat
  /-- The pause after a report of progress. -/
  interval : Nat
  deriving DecidableEq, Repr

/-- What to do after a report. -/
inductive EraseStep where
  | wait (milliseconds : Nat)
  | finished
  /-- The budget is spent and the erasure goes on. -/
  | exhausted (polls : Nat)
  deriving DecidableEq, Repr

namespace Erasure

/-- An erasure that may send `maxPolls` commands, and at least one. -/
def start (interval maxPolls : Nat) : Erasure where
  phase := .idle
  polls := 0
  maxPolls := max maxPolls 1
  interval

/-- What the next command asks for. -/
def nextAction (e : Erasure) : EraseAction :=
  if e.phase = .idle then .initiate else .status

/-- The erasure after its next command was sent. -/
def sent (e : Erasure) : Erasure :=
  if e.phase = .idle then { e with phase := .requested } else e

/-- The next command, and the erasure after it was sent. -/
def next (e : Erasure) (reservation : Reservation) : Command × Erasure :=
  (.clearSel reservation e.nextAction, e.sent)

/-- Take a report of progress. -/
def advance (e : Erasure) : EraseProgress → EraseStep × Erasure
  | .completed => (.finished, { e with polls := e.polls + 1, phase := .completed })
  | .inProgress =>
    let e := { e with polls := e.polls + 1, phase := .inProgress }
    (if e.maxPolls ≤ e.polls then .exhausted e.polls else .wait e.interval, e)

/-- Take the loss of the reservation.  The command that failed counts, and the
failure stands once the budget is spent. -/
def lose (e : Erasure) (failure : Failure) : Except Failure Unit × Erasure :=
  let e := { e with
    polls := e.polls + 1
    phase := if e.phase = .requested then .idle else e.phase }
  (if e.maxPolls ≤ e.polls then .error failure else .ok (), e)

/-! ## Progress -/

/-- A report after which to wait leaves fewer commands. -/
theorem advance_eq_wait {e e' : Erasure} {progress : EraseProgress} {ms : Nat}
    (h : e.advance progress = (.wait ms, e')) :
    e'.maxPolls - e'.polls < e.maxPolls - e.polls := by
  cases progress with
  | completed => simp [advance] at h
  | inProgress =>
    simp only [advance, Prod.mk.injEq] at h
    obtain ⟨hstep, rfl⟩ := h
    split at hstep
    · simp at hstep
    · simp only
      omega

/-- A loss that is absorbed leaves fewer commands. -/
theorem lose_eq_ok {e e' : Erasure} {failure : Failure}
    (h : e.lose failure = (.ok (), e')) :
    e'.maxPolls - e'.polls < e.maxPolls - e.polls := by
  simp only [lose, Prod.mk.injEq] at h
  obtain ⟨hstep, rfl⟩ := h
  split at hstep
  · simp at hstep
  · simp only
    omega

theorem maxPolls_sent (e : Erasure) : e.sent.maxPolls = e.maxPolls := by
  unfold sent
  split <;> rfl

theorem polls_sent (e : Erasure) : e.sent.polls = e.polls := by
  unfold sent
  split <;> rfl

end Erasure

end Baseboard.Sel
