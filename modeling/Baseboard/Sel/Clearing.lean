import Baseboard.Command.Perform
import Baseboard.Sel.Erasure

/-!
# Baseboard.Sel.Clearing

Clearing the event log: reserve it, start its erasure, and look again after a
pause until the erasure is complete or its budget is spent.
-/

namespace Baseboard.Sel

/-- Carry an erasure to its end under a reservation. -/
def Erasure.finish (e : Erasure) (reservation : Reservation) : Dialogue Unit :=
  (Command.clearSel reservation e.nextAction).perform.handle fun
    | .ok progress =>
      match hadvance : e.sent.advance progress with
      | (.finished, _) => pure ()
      | (.exhausted polls, _) => .fail (.eraseTimeout polls)
      | (.wait milliseconds, e') =>
        have := advance_eq_wait hadvance
        .pause milliseconds (e'.finish reservation)
    | .error failure =>
      if failure.isReservationCancelled then
        match hlose : e.sent.lose failure with
        | (.error failure, _) => .fail failure
        | (.ok (), e') =>
          have := lose_eq_ok hlose
          Command.reserveSel.perform.andThen fun reservation => e'.finish reservation
      else .fail failure
termination_by e.maxPolls - e.polls
decreasing_by all_goals rwa [maxPolls_sent, polls_sent] at this

/-- Clear the log, looking every `interval` milliseconds and sending at most
`maxPolls` erase commands. -/
def clearLog (interval maxPolls : Nat) : Dialogue Unit := do
  let reservation ← Command.reserveSel.perform
  (Erasure.start interval maxPolls).finish reservation

end Baseboard.Sel
