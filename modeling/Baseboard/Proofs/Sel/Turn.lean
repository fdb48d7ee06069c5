import Baseboard.Proofs.Sel.Fetch

/-!
# Baseboard.Proofs.Sel.Turn

A walk through the log as a sequence of turns.  In one turn the walk reserves the
log if it holds no reservation, fetches the record at its cursor, and then has
moved on, or has lost its reservation, or has failed.

`Turned` lists all that one turn can do, with what the controller sees of it.
`Walked` strings turns together and `Finished` adds how a walk ends.  Main
statement: every run of a walk is such a sequence (`finished_run`), whatever the
controller replies.
-/

namespace Baseboard.Sel.Walk

variable {σ : Type} {w w' w'' : Walk} {xs ys : List Exchange}

/-! ## The dialogue of one turn -/

/-- What a walk makes of a fetch. -/
def settle (w : Walk) : Except Failure (RecordId × List UInt8) → Except Failure Walk
  | .ok (next, data) =>
    match w.accept next data with
    | (.error failure, _) => .error failure
    | (.ok (), w') => .ok w'
  | .error failure => if failure.isReservationCancelled then w.lose failure else .error failure

/-- One turn of a walk. -/
def turn (w : Walk) : Dialogue Walk :=
  w.reserve.andThen fun reservation =>
    (fetch reservation w.cursor).handle fun fetched =>
      .done ((w.reserved reservation).settle fetched)

/-- A walk takes turns until it is done. -/
theorem finish_eq (w : Walk) :
    w.finish = if w.done then pure w.records else w.turn.andThen Walk.finish := by
  rw [finish]
  by_cases hdone : w.done = true
  · rw [dif_pos hdone, if_pos hdone]
  · rw [dif_neg hdone, if_neg hdone, turn, Dialogue.andThen_andThen]
    congr 1
    funext reservation
    rw [Dialogue.andThen, Dialogue.handle_handle]
    congr 1
    funext fetched
    cases fetched with
    | ok found =>
        obtain ⟨next, data⟩ := found
        simp only [Dialogue.handle, settle]
        split
        · next h => simp only [h]
        · next h => simp only [h]
    | error failure =>
        simp only [Dialogue.handle, settle]
        by_cases hcancel : failure.isReservationCancelled = true
        · rw [if_pos hcancel, if_pos hcancel]
          split
          · next h => simp only [h]
          · next h => simp only [h]
        · rw [if_neg hcancel, if_neg hcancel]

/-- A walk takes one turn, and what comes after it is a walk again. -/
theorem run_finish_of_turn {t : Transport σ} {s : σ} (hdone : w.done = false)
    (hturn : (w.turn.run t s).result = .ok w') :
    w.finish.run t s =
      (w'.finish.run t (w.turn.run t s).state).preceded (w.turn.run t s).events := by
  rw [finish_eq, hdone, if_neg Bool.false_ne_true, Dialogue.run_andThen_of_ok _ hturn]

/-! ## What one turn can do -/

/-- The walk that has lost its reservation once more. -/
def lost (w : Walk) : Walk := { w with recoveries := w.recoveries + 1, reservation := none }

/-- The walk that has accepted a record which names `next` as the one after it. -/
def accepted (w : Walk) (reservation : Reservation) (record : Record) (next : RecordId) : Walk :=
  ((w.reserved reservation).meet record).moveOn record next

theorem lose_reserved (w : Walk) (reservation : Reservation) (failure : Failure) :
    (w.reserved reservation).lose failure =
      if w.recoveries < w.maxRecoveries then .ok w.lost else .error failure := rfl

/-- The exchanges through which a walk comes by a reservation. -/
inductive Reserved (w : Walk) : List Exchange → Reservation → Prop where
  | held {reservation : Reservation} (h : w.reservation = some reservation) :
      Reserved w [] reservation
  | made {x : Exchange} {reservation : Reservation} (h : w.reservation = none)
      (hx : x.Performs .reserveSel (.ok reservation)) : Reserved w [x] reservation

/-- The exchanges of one turn of a walk, and what the turn came to. -/
inductive Turned (w : Walk) : List Exchange → Except Failure Walk → Prop where
  /-- No reservation was to be had. -/
  | unreserved {x : Exchange} {failure : Failure} (h : w.reservation = none)
      (hx : x.Performs .reserveSel (.error failure)) : Turned w [x] (.error failure)
  | accepted {ls xs : List Exchange} {reservation : Reservation} {next : RecordId}
      {data : List UInt8} {record : Record} (hls : Reserved w ls reservation)
      (hxs : Fetched reservation w.cursor xs (.ok (next, data)))
      (hrecord : Record.decode data = .ok record) (hfresh : ¬ (w.meet record).LeadsBack next) :
      Turned w (ls ++ xs) (.ok (w.accepted reservation record next))
  | refused {ls xs : List Exchange} {reservation : Reservation} {next : RecordId}
      {data : List UInt8} {record : Record} (hls : Reserved w ls reservation)
      (hxs : Fetched reservation w.cursor xs (.ok (next, data)))
      (hrecord : Record.decode data = .ok record) (hback : (w.meet record).LeadsBack next) :
      Turned w (ls ++ xs) (.error (.protocol "SEL next record ID revisits an earlier record"))
  /-- The reservation was cancelled and may be made again. -/
  | lost {ls xs : List Exchange} {reservation : Reservation} {failure : Failure}
      (hls : Reserved w ls reservation) (hxs : Fetched reservation w.cursor xs (.error failure))
      (hcancel : failure.isReservationCancelled = true)
      (hbudget : w.recoveries < w.maxRecoveries) : Turned w (ls ++ xs) (.ok w.lost)
  /-- The reservation was cancelled once too often. -/
  | spent {ls xs : List Exchange} {reservation : Reservation} {failure : Failure}
      (hls : Reserved w ls reservation) (hxs : Fetched reservation w.cursor xs (.error failure))
      (hcancel : failure.isReservationCancelled = true)
      (hbudget : w.maxRecoveries ≤ w.recoveries) : Turned w (ls ++ xs) (.error failure)
  | failed {ls xs : List Exchange} {reservation : Reservation} {failure : Failure}
      (hls : Reserved w ls reservation) (hxs : Fetched reservation w.cursor xs (.error failure))
      (hcancel : failure.isReservationCancelled = false) : Turned w (ls ++ xs) (.error failure)

/-- A turn reserves and fetches, unless it fails to reserve. -/
theorem Turned.exists_fetched {result : Except Failure Walk} (h : Turned w ys result) :
    (∃ x, ys = [x] ∧ w.reservation = none ∧ x.request = Command.reserveSel.request) ∨
      ∃ ls xs reservation fetched, ys = ls ++ xs ∧ Reserved w ls reservation ∧
        Fetched reservation w.cursor xs fetched := by
  cases h with
  | unreserved hreservation hx => exact .inl ⟨_, rfl, hreservation, hx.request_eq⟩
  | accepted hls hxs => exact .inr ⟨_, _, _, _, rfl, hls, hxs⟩
  | refused hls hxs => exact .inr ⟨_, _, _, _, rfl, hls, hxs⟩
  | lost hls hxs => exact .inr ⟨_, _, _, _, rfl, hls, hxs⟩
  | spent hls hxs => exact .inr ⟨_, _, _, _, rfl, hls, hxs⟩
  | failed hls hxs => exact .inr ⟨_, _, _, _, rfl, hls, hxs⟩

/-- Settling a fetch ends the turn in one of the ways listed. -/
theorem turned_settle {reservation : Reservation}
    {fetched : Except Failure (RecordId × List UInt8)} (hls : Reserved w xs reservation)
    (hys : Fetched reservation w.cursor ys fetched) :
    Turned w (xs ++ ys) ((w.reserved reservation).settle fetched) := by
  cases fetched with
  | ok found =>
      obtain ⟨next, data⟩ := found
      obtain ⟨record, hrecord⟩ := Record.exists_decode_eq_ok hys.size_le
      by_cases hback : (w.meet record).LeadsBack next
      · have hback' : ((w.reserved reservation).meet record).LeadsBack next := hback
        simp only [settle, accept, hrecord, if_pos hback']
        exact .refused hls hys hrecord hback
      · have hback' : ¬ ((w.reserved reservation).meet record).LeadsBack next := hback
        simp only [settle, accept, hrecord, if_neg hback']
        exact .accepted hls hys hrecord hback
  | error failure =>
      by_cases hcancel : failure.isReservationCancelled = true
      · rw [settle, if_pos hcancel]
        by_cases hbudget : w.recoveries < w.maxRecoveries
        · rw [lose_reserved, if_pos hbudget]
          exact .lost hls hys hcancel hbudget
        · rw [lose_reserved, if_neg hbudget]
          exact .spent hls hys hcancel (by omega)
      · rw [settle, if_neg hcancel]
        exact .failed hls hys (Bool.eq_false_iff.mpr hcancel)

/-- Every run of a turn is one of the turns listed. -/
theorem turned_run (w : Walk) (t : Transport σ) (s : σ) :
    Turned w (w.turn.run t s).exchanges (w.turn.run t s).result := by
  let rest (reservation : Reservation) : Dialogue Walk :=
    (fetch reservation w.cursor).handle fun fetched =>
      .done ((w.reserved reservation).settle fetched)
  have hrest : ∀ {ls : List Exchange} {reservation : Reservation} (s : σ),
      Reserved w ls reservation →
      Turned w (ls ++ ((rest reservation).run t s).exchanges)
        ((rest reservation).run t s).result := by
    intro ls reservation s hls
    have hturned := turned_settle hls (fetched_run reservation w.cursor t s)
    simpa [rest, Dialogue.run_handle_eq, Dialogue.Run.preceded, Dialogue.Run.exchanges]
      using hturned
  have hturn : w.turn = w.reserve.andThen rest := rfl
  rw [hturn]
  cases hreservation : w.reservation with
  | some reservation =>
      have hreserve : w.reserve.andThen rest = rest reservation := by
        rw [reserve, hreservation]
        rfl
      rw [hreserve]
      exact hrest s (.held hreservation)
  | none =>
      have hreserve : w.reserve.andThen rest = Command.reserveSel.perform.andThen rest := by
        rw [reserve, hreservation]
      obtain ⟨x, result, s', hx, hxs, hresult⟩ :=
        Command.exists_performs_handle .reserveSel _ t s
      rw [hreserve, Dialogue.andThen, hxs, hresult]
      cases result with
      | error failure => exact .unreserved hreservation hx
      | ok reservation => exact hrest s' (.made hreservation hx)

/-! ## Turns in a row -/

/-- The exchanges of some turns of a walk, and the walk after them. -/
inductive Walked (w : Walk) : List Exchange → Walk → Prop where
  | start : Walked w [] w
  | turn {xs ys : List Exchange} {w' w'' : Walk} (hwalked : Walked w xs w')
      (hdone : w'.done = false) (hturn : Turned w' ys (.ok w'')) : Walked w (xs ++ ys) w''

/-- The exchanges of a whole walk, and the result. -/
inductive Finished (w : Walk) : List Exchange → Except Failure (List Record) → Prop where
  | arrived {xs : List Exchange} {w' : Walk} (hwalked : Walked w xs w') (hdone : w'.done = true) :
      Finished w xs (.ok w'.records)
  | failed {xs ys : List Exchange} {w' : Walk} {failure : Failure} (hwalked : Walked w xs w')
      (hdone : w'.done = false) (hturn : Turned w' ys (.error failure)) :
      Finished w (xs ++ ys) (.error failure)

/-- A walk that ends well is done. -/
theorem Finished.exists_walked {records : List Record} (h : Finished w xs (.ok records)) :
    ∃ w', Walked w xs w' ∧ w'.done = true ∧ records = w'.records := by
  generalize hresult : (Except.ok records : Except Failure _) = result at h
  cases h with
  | arrived hwalked hdone =>
      cases hresult
      exact ⟨_, hwalked, hdone, rfl⟩
  | failed => cases hresult

/-- A turn may be put in front of turns. -/
theorem Walked.cons (hdone : w.done = false) (hturn : Turned w xs (.ok w'))
    (hwalked : Walked w' ys w'') : Walked w (xs ++ ys) w'' := by
  induction hwalked with
  | start =>
      rw [List.append_nil, ← List.nil_append xs]
      exact .turn .start hdone hturn
  | turn _ hdone' hturn' ih =>
      rw [← List.append_assoc]
      exact .turn ih hdone' hturn'

/-- A turn may be put in front of a whole walk. -/
theorem Finished.cons {result : Except Failure (List Record)} (hdone : w.done = false)
    (hturn : Turned w xs (.ok w')) (hfinished : Finished w' ys result) :
    Finished w (xs ++ ys) result := by
  cases hfinished with
  | arrived hwalked hdone' => exact .arrived (.cons hdone hturn hwalked) hdone'
  | failed hwalked hdone' hturn' =>
      rw [← List.append_assoc]
      exact .failed (.cons hdone hturn hwalked) hdone' hturn'

/-- A turn brings a walk nearer to its end, or spends one of its recoveries. -/
theorem Turned.lex_lt (hdone : w.done = false) (hturn : Turned w xs (.ok w')) :
    Prod.Lex (· < ·) (· < ·) (w'.pending, w'.maxRecoveries - w'.recoveries)
      (w.pending, w.maxRecoveries - w.recoveries) := by
  cases hturn with
  | @accepted _ _ reservation next data record hls hxs hrecord hfresh =>
      have haccept : (w.reserved reservation).accept next data =
          (.ok (), w.accepted reservation record next) := by
        have hfresh' : ¬ ((w.reserved reservation).meet record).LeadsBack next := hfresh
        simp only [accept, hrecord, if_neg hfresh']
        rfl
      exact .left _ _ (pending_lt_of_accept_eq_ok (w := w.reserved reservation) hdone haccept)
  | lost _ _ _ hbudget =>
      have hfewer : w.maxRecoveries - (w.recoveries + 1) < w.maxRecoveries - w.recoveries := by
        omega
      exact .right w.pending hfewer

/-- Every run of a walk is a whole walk, whatever the controller replies. -/
theorem finished_run (w : Walk) (t : Transport σ) (s : σ) :
    Finished w (w.finish.run t s).exchanges (w.finish.run t s).result := by
  rw [finish_eq]
  by_cases hdone : w.done = true
  · rw [if_pos hdone]
    exact .arrived .start hdone
  · rw [if_neg hdone]
    have hdone' : w.done = false := Bool.eq_false_iff.mpr hdone
    have hturn := turned_run w t s
    cases hresult : (w.turn.run t s).result with
    | error failure =>
        rw [hresult] at hturn
        rw [Dialogue.run_andThen_of_error _ hresult]
        exact .failed .start hdone' hturn
    | ok w' =>
        rw [hresult] at hturn
        have hlt := hturn.lex_lt hdone'
        rw [Dialogue.run_andThen_of_ok _ hresult, Dialogue.Run.exchanges_preceded]
        exact .cons hdone' hturn (finished_run w' t (w.turn.run t s).state)
termination_by (w.pending, w.maxRecoveries - w.recoveries)
decreasing_by
  exact hlt

end Baseboard.Sel.Walk
