import Baseboard.Proofs.Sel.Service
import Baseboard.Sel.Clearing

/-!
# Baseboard.Proofs.Sel.Look

An erasure, look by look.  A look is one Clear SEL command, be it the one that starts
the erasure or one that asks how far it is.  After a report of progress the erasure
waits and looks again; after the loss of the reservation it reserves the log again
and looks again; anything else ends it.

`Erased` lists what an erasure can do in this way, and every run does one of it
(`Erasure.erased_run`).  `EraseReply` reads off the wire how a look was answered.
-/

namespace Baseboard.Sel

variable {σ : Type}

/-! ## Steps -/

namespace Erasure

/-- The erasure after a report of progress. -/
def progressed (e : Erasure) : Erasure := { e with polls := e.polls + 1, phase := .inProgress }

@[simp] theorem polls_progressed (e : Erasure) : e.progressed.polls = e.polls + 1 := rfl

@[simp] theorem maxPolls_progressed (e : Erasure) : e.progressed.maxPolls = e.maxPolls := rfl

/-- After a report of progress fewer looks are left. -/
theorem left_progressed_lt {e : Erasure} (hleft : e.polls + 1 < e.maxPolls) :
    e.progressed.maxPolls - e.progressed.polls < e.maxPolls - e.polls := by
  rw [maxPolls_progressed, polls_progressed]
  omega

/-- The erasure after the loss of its reservation. -/
def lost (e : Erasure) : Erasure :=
  { e with
    polls := e.polls + 1
    phase := if e.phase = .idle ∨ e.phase = .requested then .idle else e.phase }

@[simp] theorem polls_lost (e : Erasure) : e.lost.polls = e.polls + 1 := rfl

@[simp] theorem maxPolls_lost (e : Erasure) : e.lost.maxPolls = e.maxPolls := rfl

/-- After the loss of the reservation fewer looks are left. -/
theorem left_lost_lt {e : Erasure} (hleft : e.polls + 1 < e.maxPolls) :
    e.lost.maxPolls - e.lost.polls < e.maxPolls - e.polls := by
  rw [maxPolls_lost, polls_lost]
  omega

theorem advance_sent (e : Erasure) :
    e.sent.advance .inProgress =
      (if e.maxPolls ≤ e.polls + 1 then .exhausted (e.polls + 1) else .wait e.interval,
        e.progressed) := by
  unfold sent
  split <;> rfl

theorem lose_sent (e : Erasure) (failure : Failure) :
    e.sent.lose failure =
      (if e.maxPolls ≤ e.polls + 1 then .error failure else .ok (), e.lost) := by
  by_cases hidle : e.phase = .idle
  · simp [sent, lose, lost, hidle]
  · simp [sent, lose, lost, hidle]

/-- What follows a look, by its result. -/
theorem finish_eq (e : Erasure) (reservation : Reservation) :
    e.finish reservation = (Command.clearSel reservation e.nextAction).perform.handle fun
      | .ok .completed => pure ()
      | .ok .inProgress =>
        if e.maxPolls ≤ e.polls + 1 then .fail (.eraseTimeout (e.polls + 1))
        else .pause e.interval (e.progressed.finish reservation)
      | .error failure =>
        if failure.isReservationCancelled then
          if e.maxPolls ≤ e.polls + 1 then .fail failure
          else Command.reserveSel.perform.andThen fun reservation => e.lost.finish reservation
        else .fail failure := by
  rw [finish]
  congr 1
  funext result
  cases result with
  | ok progress =>
      cases progress with
      | completed => rfl
      | inProgress =>
          dsimp only
          have hadvance := e.advance_sent
          by_cases hspent : e.maxPolls ≤ e.polls + 1
          · rw [if_pos hspent] at hadvance
            rw [if_pos hspent]
            split
            · next h => simp [hadvance] at h
            · next h =>
              rw [hadvance] at h
              cases h
              rfl
            · next h => simp [hadvance] at h
          · rw [if_neg hspent] at hadvance
            rw [if_neg hspent]
            split
            · next h => simp [hadvance] at h
            · next h => simp [hadvance] at h
            · next h =>
              rw [hadvance] at h
              cases h
              rfl
  | error failure =>
      dsimp only
      by_cases hcancel : failure.isReservationCancelled = true
      · rw [if_pos hcancel, if_pos hcancel]
        have hlose := e.lose_sent failure
        by_cases hspent : e.maxPolls ≤ e.polls + 1
        · rw [if_pos hspent] at hlose
          rw [if_pos hspent]
          split
          · next h =>
            rw [hlose] at h
            cases h
            rfl
          · next h => simp [hlose] at h
        · rw [if_neg hspent] at hlose
          rw [if_neg hspent]
          split
          · next h => simp [hlose] at h
          · next h =>
            rw [hlose] at h
            cases h
            rfl
      · rw [if_neg hcancel, if_neg hcancel]

end Erasure

/-! ## Runs -/

/-- The acts that carry an erasure to its end, and the result. -/
inductive Erased : Erasure → Reservation → List Act → Except Failure Unit → Prop where
  | completed {e : Erasure} {reservation : Reservation} {x : Exchange}
      (hx : x.Performs (.clearSel reservation e.nextAction) (.ok .completed)) :
      Erased e reservation [.exchange x] (.ok ())
  /-- The last look found the erasure in progress. -/
  | exhausted {e : Erasure} {reservation : Reservation} {x : Exchange}
      (hx : x.Performs (.clearSel reservation e.nextAction) (.ok .inProgress))
      (hspent : e.maxPolls ≤ e.polls + 1) :
      Erased e reservation [.exchange x] (.error (.eraseTimeout (e.polls + 1)))
  | waited {e : Erasure} {reservation : Reservation} {x : Exchange} {acts : List Act}
      {result : Except Failure Unit}
      (hx : x.Performs (.clearSel reservation e.nextAction) (.ok .inProgress))
      (hleft : e.polls + 1 < e.maxPolls) (rest : Erased e.progressed reservation acts result) :
      Erased e reservation (.exchange x :: .pause e.interval :: acts) result
  /-- The last look lost the reservation. -/
  | spent {e : Erasure} {reservation : Reservation} {x : Exchange} {failure : Failure}
      (hx : x.Performs (.clearSel reservation e.nextAction) (.error failure))
      (hcancel : failure.isReservationCancelled = true) (hspent : e.maxPolls ≤ e.polls + 1) :
      Erased e reservation [.exchange x] (.error failure)
  /-- A lost reservation could not be had again. -/
  | unreserved {e : Erasure} {reservation : Reservation} {x y : Exchange}
      {failure refusal : Failure}
      (hx : x.Performs (.clearSel reservation e.nextAction) (.error failure))
      (hcancel : failure.isReservationCancelled = true) (hleft : e.polls + 1 < e.maxPolls)
      (hy : y.Performs .reserveSel (.error refusal)) :
      Erased e reservation [.exchange x, .exchange y] (.error refusal)
  | reserved {e : Erasure} {reservation renewed : Reservation} {x y : Exchange}
      {failure : Failure} {acts : List Act} {result : Except Failure Unit}
      (hx : x.Performs (.clearSel reservation e.nextAction) (.error failure))
      (hcancel : failure.isReservationCancelled = true) (hleft : e.polls + 1 < e.maxPolls)
      (hy : y.Performs .reserveSel (.ok renewed)) (rest : Erased e.lost renewed acts result) :
      Erased e reservation (.exchange x :: .exchange y :: acts) result
  | failed {e : Erasure} {reservation : Reservation} {x : Exchange} {failure : Failure}
      (hx : x.Performs (.clearSel reservation e.nextAction) (.error failure))
      (hcancel : failure.isReservationCancelled = false) :
      Erased e reservation [.exchange x] (.error failure)

/-- Every run of an erasure takes it to its end. -/
theorem Erasure.erased_run (e : Erasure) (reservation : Reservation) (t : Transport σ) (s : σ) :
    Erased e reservation ((e.finish reservation).run t s).acts
      ((e.finish reservation).run t s).result := by
  rw [finish_eq]
  obtain ⟨x, result, s', hx, hacts, hresult⟩ :=
    Command.exists_performs_handle_acts (.clearSel reservation e.nextAction) _ t s
  rw [hacts, hresult]
  cases result with
  | ok progress =>
      cases progress with
      | completed => exact .completed hx
      | inProgress =>
          by_cases hspent : e.maxPolls ≤ e.polls + 1
          · simp only [if_pos hspent]
            exact .exhausted hx hspent
          · simp only [if_neg hspent]
            have hleft : e.polls + 1 < e.maxPolls := Nat.lt_of_not_le hspent
            have hlt := Erasure.left_progressed_lt hleft
            exact .waited hx hleft (e.progressed.erased_run reservation t s')
  | error failure =>
      by_cases hcancel : failure.isReservationCancelled = true
      · by_cases hspent : e.maxPolls ≤ e.polls + 1
        · simp only [if_pos hcancel, if_pos hspent]
          exact .spent hx hcancel hspent
        · simp only [if_pos hcancel, if_neg hspent]
          have hleft : e.polls + 1 < e.maxPolls := Nat.lt_of_not_le hspent
          obtain ⟨y, reserved, s'', hy, hacts', hresult'⟩ :=
            Command.exists_performs_handle_acts .reserveSel _ t s'
          rw [Dialogue.andThen, hacts', hresult']
          cases reserved with
          | error refusal => exact .unreserved hx hcancel hleft hy
          | ok renewed =>
              have hlt := Erasure.left_lost_lt hleft
              exact .reserved hx hcancel hleft hy (e.lost.erased_run renewed t s'')
      · simp only [if_neg hcancel]
        exact .failed hx (Bool.eq_false_iff.mpr hcancel)
termination_by e.maxPolls - e.polls

/-- The acts that clear the log, and the result. -/
inductive Cleared (interval maxPolls : Nat) : List Act → Except Failure Unit → Prop where
  | unreserved {y : Exchange} {refusal : Failure}
      (hy : y.Performs .reserveSel (.error refusal)) :
      Cleared interval maxPolls [.exchange y] (.error refusal)
  | reserved {y : Exchange} {reservation : Reservation} {acts : List Act}
      {result : Except Failure Unit} (hy : y.Performs .reserveSel (.ok reservation))
      (rest : Erased (.start interval maxPolls) reservation acts result) :
      Cleared interval maxPolls (.exchange y :: acts) result

/-- Every run that clears the log reserves it first. -/
theorem cleared_run (interval maxPolls : Nat) (t : Transport σ) (s : σ) :
    Cleared interval maxPolls ((clearLog interval maxPolls).run t s).acts
      ((clearLog interval maxPolls).run t s).result := by
  have hclear : clearLog interval maxPolls =
      Command.reserveSel.perform.andThen fun reservation =>
        (Erasure.start interval maxPolls).finish reservation := rfl
  obtain ⟨y, reserved, s', hy, hacts, hresult⟩ :=
    Command.exists_performs_handle_acts .reserveSel _ t s
  rw [hclear, Dialogue.andThen, hacts, hresult]
  cases reserved with
  | error refusal => exact .unreserved hy
  | ok reservation =>
      exact .reserved hy ((Erasure.start interval maxPolls).erased_run reservation t s')

/-! ## Looks on the wire -/

/-- What a Clear SEL command says. -/
structure EraseCommand where
  reservation : Reservation
  action : EraseAction
  deriving DecidableEq, Repr

/-- The Clear SEL command that a request is, if it is one. -/
def EraseCommand.ofRequest? (r : Request) : Option EraseCommand :=
  if r.address = .request .storage 0 ∧ r.command = 0x47 then
    match r.data with
    | [t0, t1, 0x43, 0x4C, 0x52, 0xAA] => some ⟨⟨le16 t0 t1⟩, .initiate⟩
    | [t0, t1, 0x43, 0x4C, 0x52, 0x00] => some ⟨⟨le16 t0 t1⟩, .status⟩
    | _ => none
  else none

/-- A Clear SEL command is known from its request. -/
@[simp] theorem EraseCommand.ofRequest?_request (reservation : Reservation)
    (action : EraseAction) :
    ofRequest? (Command.clearSel reservation action).request = some ⟨reservation, action⟩ := by
  have hdata : (Command.clearSel reservation action).request.data =
      toLE16 reservation.token ++ Command.eraseMarker ++ [action.byte] := rfl
  rw [ofRequest?, if_pos ⟨rfl, rfl⟩, hdata]
  cases action <;>
    simp only [toLE16, Command.eraseMarker, EraseAction.byte, List.cons_append, List.nil_append,
      le16_toLE16]

@[simp] theorem EraseCommand.ofRequest?_reserveSel :
    ofRequest? Command.reserveSel.request = none := by
  decide

/-- Whether an exchange is a look: a Clear SEL command and its reply. -/
def isLook (x : Exchange) : Bool :=
  x.request.address = .request .storage 0 && x.request.command = 0x47

theorem isLook_of_ofRequest? {x : Exchange} {command : EraseCommand}
    (h : EraseCommand.ofRequest? x.request = some command) : isLook x = true := by
  unfold EraseCommand.ofRequest? at h
  by_cases hx : x.request.address = .request .storage 0 ∧ x.request.command = 0x47
  · simpa [isLook] using hx
  · rw [if_neg hx] at h
    contradiction

/-- The looks among some exchanges. -/
def looks (xs : List Exchange) : List Exchange := xs.filter isLook

/-- Whether an exchange asks for a reservation. -/
def isReserve (x : Exchange) : Bool := x.request = Command.reserveSel.request

theorem isLook_of_performs {x : Exchange} {reservation : Reservation} {action : EraseAction}
    {result : Except Failure EraseProgress}
    (hx : x.Performs (.clearSel reservation action) result) : isLook x = true := by
  rw [isLook, hx.request_eq]
  rfl

theorem isLook_of_reserves {y : Exchange} {result : Except Failure Reservation}
    (hy : y.Performs .reserveSel result) : isLook y = false := by
  rw [isLook, hy.request_eq]
  rfl

theorem isReserve_of_performs {y : Exchange} {result : Except Failure Reservation}
    (hy : y.Performs .reserveSel result) : isReserve y = true :=
  decide_eq_true hy.request_eq

/-- A look asks for no reservation. -/
theorem isReserve_of_isLook {x : Exchange} (hx : isLook x = true) : isReserve x = false := by
  refine decide_eq_false fun h => ?_
  rw [isLook, h] at hx
  contradiction

@[simp] theorem looks_nil : looks [] = [] := rfl

theorem looks_cons_of_isLook {x : Exchange} (hx : isLook x = true) (xs : List Exchange) :
    looks (x :: xs) = x :: looks xs := List.filter_cons_of_pos hx

theorem looks_cons_of_not_isLook {x : Exchange} (hx : isLook x = false) (xs : List Exchange) :
    looks (x :: xs) = looks xs := List.filter_cons_of_neg (by simp [hx])

theorem looks_cons_look {x : Exchange} {reservation : Reservation} {action : EraseAction}
    {result : Except Failure EraseProgress}
    (hx : x.Performs (.clearSel reservation action) result) (xs : List Exchange) :
    looks (x :: xs) = x :: looks xs :=
  looks_cons_of_isLook (isLook_of_performs hx) xs

theorem looks_cons_reserve {y : Exchange} {result : Except Failure Reservation}
    (hy : y.Performs .reserveSel result) (xs : List Exchange) : looks (y :: xs) = looks xs :=
  looks_cons_of_not_isLook (isLook_of_reserves hy) xs

/-- How a look is answered: with the progress of the erasure, or with the code that
cancels the reservation. -/
inductive EraseReply where
  | reported (progress : EraseProgress)
  | cancelled
  deriving DecidableEq, Repr

/-- The answer that a reply to a look brings; `none` for every other reply. -/
def EraseReply.ofReply? : Except Failure Response → Option EraseReply
  | .ok ⟨0x00, bits :: _⟩ => some (.reported (.ofBits bits))
  | .ok ⟨0xC5, _⟩ => some .cancelled
  | _ => none

/-- How a look is answered, and the result of the command. -/
inductive Answered (x : Exchange) : Except Failure EraseProgress → Prop where
  | reported {progress : EraseProgress}
      (h : EraseReply.ofReply? x.reply = some (.reported progress)) : Answered x (.ok progress)
  | cancelled (h : EraseReply.ofReply? x.reply = some .cancelled) :
      Answered x (.error (.refused "Clear SEL" .reservationCancelled))
  /-- Every other reply is a failure. -/
  | failed {failure : Failure} (h : EraseReply.ofReply? x.reply = none) :
      Answered x (.error failure)

/-- The reply to a look decides what comes of it. -/
theorem answered_of_performs {x : Exchange} {reservation : Reservation} {action : EraseAction}
    {result : Except Failure EraseProgress}
    (hx : x.Performs (.clearSel reservation action) result) : Answered x result := by
  obtain ⟨request, reply⟩ := x
  rw [← hx.outcome_eq]
  cases reply with
  | error failure => exact .failed rfl
  | ok response =>
      obtain ⟨code, data⟩ := response
      by_cases hok : code = 0x00
      · subst hok
        cases data with
        | nil => exact .failed rfl
        | cons bits rest => exact .reported rfl
      · by_cases hcancelled : code = 0xC5
        · subst hcancelled
          exact .cancelled rfl
        · rw [Command.outcome_of_ne_zero _ hok]
          refine .failed ?_
          unfold EraseReply.ofReply?
          split
          · next h => exact absurd (congrArg Response.code (Except.ok.inj h)) hok
          · next h => exact absurd (congrArg Response.code (Except.ok.inj h)) hcancelled
          · rfl

theorem ofReply?_of_ok {x : Exchange} {reservation : Reservation} {action : EraseAction}
    {progress : EraseProgress} (hx : x.Performs (.clearSel reservation action) (.ok progress)) :
    EraseReply.ofReply? x.reply = some (.reported progress) := by
  cases answered_of_performs hx with
  | reported h => exact h

/-- A look that failed reported nothing. -/
theorem ofReply?_of_error {x : Exchange} {reservation : Reservation} {action : EraseAction}
    {failure : Failure} (hx : x.Performs (.clearSel reservation action) (.error failure))
    (progress : EraseProgress) : EraseReply.ofReply? x.reply ≠ some (.reported progress) := by
  cases answered_of_performs hx with
  | cancelled h => simp [h]
  | failed h => simp [h]

/-- A look that was answered failed only by losing the reservation. -/
theorem eq_cancelled_of_error {x : Exchange} {reservation : Reservation} {action : EraseAction}
    {failure : Failure} {reply : EraseReply}
    (hx : x.Performs (.clearSel reservation action) (.error failure))
    (hreply : EraseReply.ofReply? x.reply = some reply) :
    reply = .cancelled ∧ failure = .refused "Clear SEL" .reservationCancelled := by
  cases answered_of_performs hx with
  | cancelled h => exact ⟨Option.some.inj (hreply.symm.trans h), rfl⟩
  | failed h => simp [h] at hreply

/-! ## Lost reservations -/

/-- Whether a reply says that the reservation is cancelled.  A transport may report
the code as a failure of its own. -/
def losesReservation : Except Failure Response → Bool
  | .ok response => response.code = 0xC5
  | .error failure => failure.isReservationCancelled

/-- Only one code says that a reservation is cancelled. -/
theorem isReservationCancelled_refused (name : String) (code : UInt8) :
    (Failure.refused name (.ofByte code)).isReservationCancelled = decide (code = 0xC5) := by
  refine decide_eq_decide.mpr ⟨fun h => ?_, fun h => by rw [h]; rfl⟩
  rw [← CompletionCode.byte_ofByte code, Option.some.inj h]
  rfl

theorem losesReservation_of_reported {reply : Except Failure Response} {progress : EraseProgress}
    (h : EraseReply.ofReply? reply = some (.reported progress)) :
    losesReservation reply = false := by
  unfold EraseReply.ofReply? at h
  split at h
  · rfl
  · simp at h
  · simp at h

/-- A command that succeeded lost no reservation. -/
theorem losesReservation_of_ok {x : Exchange} {c : Command} {output : c.Output}
    (hx : x.Performs c (.ok output)) : losesReservation x.reply = false := by
  obtain ⟨data, rest, hreply, -⟩ := hx.exists_read?
  rw [hreply]
  rfl

/-- A command that failed lost the reservation just when its failure says so. -/
theorem losesReservation_of_error {x : Exchange} {c : Command} {failure : Failure}
    (hx : x.Performs c (.error failure)) :
    losesReservation x.reply = failure.isReservationCancelled := by
  obtain ⟨request, reply⟩ := x
  have houtcome := hx.outcome_eq
  cases reply with
  | error cause => exact congrArg Failure.isReservationCancelled (Except.error.inj houtcome)
  | ok response =>
      obtain ⟨code, data⟩ := response
      by_cases hok : code = 0x00
      · subst hok
        cases hread : c.read? data with
        | none =>
            rw [Command.outcome_of_read?_eq_none hread] at houtcome
            exact congrArg Failure.isReservationCancelled (Except.error.inj houtcome)
        | some found =>
            rw [Command.outcome_of_read? hread] at houtcome
            contradiction
      · rw [Command.outcome_of_ne_zero _ hok] at houtcome
        rw [← Except.error.inj houtcome, isReservationCancelled_refused]
        rfl

end Baseboard.Sel
