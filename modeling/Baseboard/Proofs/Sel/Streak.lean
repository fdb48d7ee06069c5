import Baseboard.Proofs.Sel.Discipline

/-!
# Baseboard.Proofs.Sel.Streak

How many lost reservations a walk recovers from, whatever the controller replies.

A walk with a budget of recoveries fails by the loss of a reservation just when that many
fetches in a row and one more have lost theirs.  The failure of the last of them is the
result, and nothing is sent after it.  Any other loss is recovered from, by asking for the
same record again, however many there were before; and a record that is complete makes the
whole budget available again.

`Streak` lists the exchanges of fetches that lose their reservation in a row.  Main
statement: `Walk.budgeted_finish`.
-/

namespace Baseboard.Sel

/-! ## Lost reads -/

/-- A command that a cancelled reservation made fail was refused for it, unless the
transport reported so by itself. -/
theorem eq_refused_of_cancelled {x : Exchange} {c : Command} {failure : Failure}
    (hx : x.Performs c (.error failure)) (hcancel : failure.isReservationCancelled = true) :
    x.reply = .error failure ∨ failure = .refused c.name .reservationCancelled := by
  obtain ⟨request, reply⟩ := x
  have houtcome := hx.outcome_eq
  cases reply with
  | error cause => exact .inl (congrArg Except.error (Except.error.inj houtcome))
  | ok response =>
      right
      obtain ⟨code, data⟩ := response
      have hlost := losesReservation_of_error hx
      rw [hcancel] at hlost
      have hcode : code = 0xC5 := of_decide_eq_true hlost
      subst hcode
      rw [Command.outcome_of_cancelled] at houtcome
      exact (Except.error.inj houtcome).symm

section

variable {reservation : Reservation} {id : RecordId} {xs : List Exchange} {failure : Failure}

theorem Completion.exists_lost {data : List UInt8}
    (h : Completion reservation id data xs (.error failure))
    (hcancel : failure.isReservationCancelled = true) :
    ∃ front y read, xs = front ++ [y] ∧ y.Performs (.getSelEntry read) (.error failure) := by
  generalize hresult : (Except.error failure : Except Failure (List UInt8)) = result at h
  induction h with
  | complete => cases hresult
  | failed _ hx =>
      cases hresult
      exact ⟨[], _, _, rfl, hx⟩
  | stuck =>
      cases hresult
      contradiction
  | more _ hx _ _ ih =>
      obtain ⟨front, y, read, rfl, hy⟩ := ih hresult
      exact ⟨_ :: front, y, read, rfl, hy⟩

/-- The last read of a fetch that loses the reservation loses it. -/
theorem Fetched.exists_lost (h : Fetched reservation id xs (.error failure))
    (hcancel : failure.isReservationCancelled = true) :
    ∃ front y read, xs = front ++ [y] ∧ y.Performs (.getSelEntry read) (.error failure) := by
  generalize hresult :
    (Except.error failure : Except Failure (RecordId × List UInt8)) = result at h
  cases h with
  | failed hx =>
      cases hresult
      exact ⟨[], _, _, rfl, hx⟩
  | @read _ _ _ completed hx rest =>
      cases completed with
      | ok data => cases hresult
      | error failure' =>
          cases hresult
          obtain ⟨front, y, read, rfl, hy⟩ := rest.exists_lost hcancel
          exact ⟨_ :: front, y, read, rfl, hy⟩

end

theorem loses_of_cancelled {y : Exchange} {read : EntryRead} {failure : Failure}
    (hy : y.Performs (.getSelEntry read) (.error failure))
    (hcancel : failure.isReservationCancelled = true) : loses y = true :=
  (loses_of_performs hy).trans hcancel

/-- The last exchange of a fetch loses the reservation just when its result says so. -/
theorem Ends.loses_last {α : Type} {ys : List Exchange} {result : Except Failure α}
    (h : Ends ys result) {xs front : List Exchange} {y : Exchange}
    (hxs : xs ++ ys = front ++ [y]) : loses y = tellsOfLoss result := by
  obtain ⟨before, last, rfl, -, -, hloses⟩ := h
  rw [← List.append_assoc] at hxs
  obtain ⟨-, rfl⟩ := List.append_singleton_inj.mp hxs
  exact hloses

/-- No more is lost since a record was complete than is lost altogether. -/
theorem losses_append_le (xs ys : List Exchange) :
    losses (xs ++ ys) ≤ losses xs + ys.countP loses := by
  induction ys generalizing xs with
  | nil => simp
  | cons y ys ih =>
      have hy : losses (xs ++ [y]) ≤ losses xs + if loses y then 1 else 0 := by
        rw [losses_concat]
        split
        · exact Nat.zero_le _
        · exact Nat.le_refl _
      have hys := ih (xs ++ [y])
      rw [List.append_cons, List.countP_cons]
      omega

/-! ## Streaks -/

/-- Fetches in a row that lose their reservation, with a new one granted between any two
of them: how many there are, their exchanges, and the failure of the last. -/
inductive Streak : Nat → List Exchange → Failure → Prop where
  | first {reservation : Reservation} {id : RecordId} {ys : List Exchange} {failure : Failure}
      (hys : Fetched reservation id ys (.error failure))
      (hcancel : failure.isReservationCancelled = true) : Streak 1 ys failure
  | next {n : Nat} {xs ys : List Exchange} {z : Exchange} {renewed reservation : Reservation}
      {id : RecordId} {earlier failure : Failure} (hxs : Streak n xs earlier)
      (hz : z.Performs .reserveSel (.ok renewed))
      (hys : Fetched reservation id ys (.error failure))
      (hcancel : failure.isReservationCancelled = true) : Streak (n + 1) (xs ++ z :: ys) failure

namespace Streak

variable {n : Nat} {streak : List Exchange} {failure : Failure}

/-- A streak ends with a read that lost the reservation. -/
theorem exists_lost (h : Streak n streak failure) :
    failure.isReservationCancelled = true ∧ ∃ front y read, streak = front ++ [y] ∧
      y.Performs (.getSelEntry read) (.error failure) := by
  cases h with
  | first hys hcancel => exact ⟨hcancel, hys.exists_lost hcancel⟩
  | @next _ xs _ z _ _ _ _ _ _ _ hys hcancel =>
      obtain ⟨front, y, read, rfl, hy⟩ := hys.exists_lost hcancel
      exact ⟨hcancel, xs ++ z :: front, y, read,
        (List.append_assoc xs (z :: front) [y]).symm, hy⟩

/-- Each fetch of a streak is one more loss. -/
theorem losses_append (h : Streak n streak failure) (before : List Exchange) :
    losses (before ++ streak) = losses before + n := by
  have hfetch {reservation : Reservation} {id : RecordId} {ys : List Exchange} {failure : Failure}
      (hys : Fetched reservation id ys (.error failure))
      (hcancel : failure.isReservationCancelled = true) (xs : List Exchange) :
      losses (xs ++ ys) = losses xs + 1 := by
    rw [hys.ends.losses_append, tellsOfLoss, hcancel]
    rfl
  induction h with
  | first hys hcancel => exact hfetch hys hcancel before
  | @next n xs ys z _ _ _ _ _ _ hz hys hcancel ih =>
      obtain ⟨-, hcompletes, hloses⟩ := uneventful_of_reserves hz
      rw [← List.append_assoc, List.append_cons, hfetch hys hcancel,
        losses_append_of_uneventful (by simp [hcompletes, hloses]), ih]
      rfl

end Streak

/-- Whether a streak is part of some exchanges. -/
def HasStreak (n : Nat) (xs : List Exchange) : Prop :=
  ∃ before streak after failure, xs = before ++ streak ++ after ∧ Streak n streak failure

/-- A walk that failed because its last exchange, a read, lost the reservation. -/
def FailsByLoss (xs : List Exchange) (result : Except Failure (List Record)) : Prop :=
  ∃ front y read failure, xs = front ++ [y] ∧
    y.Performs (.getSelEntry read) (.error failure) ∧
      failure.isReservationCancelled = true ∧ result = .error failure

/-- The exchanges of a walk that may recover from so many losses in a row, and its
result. -/
structure Budgeted (maxRecoveries : Nat) (xs : List Exchange)
    (result : Except Failure (List Record)) : Prop where
  /-- A loss is the failure of the walk just when it is one too many in a row. -/
  fails_iff : FailsByLoss xs result ↔ HasStreak (maxRecoveries + 1) xs
  /-- The last loss in a row that is too long is the result, and nothing is sent after
  it. -/
  ended : ∀ before streak after failure, xs = before ++ streak ++ after →
    Streak (maxRecoveries + 1) streak failure → after = [] ∧ result = .error failure
  /-- After any other loss the log is reserved again, and then the record that was lost is
  asked for again. -/
  absorbed : ∀ before y after, xs = before ++ y :: after → loses y = true →
    ¬ HasStreak (maxRecoveries + 1) (before ++ [y]) → Resumes y after
  /-- So it is after as many losses as the budget allows since a record was complete,
  whatever was lost before. -/
  refreshed : ∀ before x middle y after, xs = before ++ x :: middle ++ y :: after →
    completes x = true → loses y = true → (middle ++ [y]).countP loses ≤ maxRecoveries →
      Resumes y after
  /-- When the transport never reports the code as a failure of its own, the result tells
  whether this happened. -/
  refused_iff : (∀ x ∈ xs, ∀ failure, x.reply = .error failure →
      failure.isReservationCancelled = false) →
    (result = .error (.refused "Get SEL Entry" .reservationCancelled) ↔
      HasStreak (maxRecoveries + 1) xs)

namespace Walk

variable {w w' : Walk} {xs ys ls : List Exchange} {result : Except Failure (List Record)}

/-! ## Losses in a row -/

/-- Whether the losses that a walk has to recover from were in a row. -/
def OnStreak (xs : List Exchange) (w : Walk) : Prop :=
  0 < w.recoveries → w.reservation = none ∧
    ∃ before streak failure, xs = before ++ streak ∧ Streak w.recoveries streak failure

/-- One more loss makes the streak longer by one. -/
theorem OnStreak.lost {reservation : Reservation} {id : RecordId} {failure : Failure}
    (h : OnStreak xs w) (hls : Reserved w ls reservation)
    (hys : Fetched reservation id ys (.error failure))
    (hcancel : failure.isReservationCancelled = true) :
    ∃ before streak, xs ++ (ls ++ ys) = before ++ streak ∧
      Streak (w.recoveries + 1) streak failure := by
  rcases Nat.eq_zero_or_pos w.recoveries with hzero | hpos
  · rw [hzero, ← List.append_assoc]
    exact ⟨xs ++ ls, ys, rfl, .first hys hcancel⟩
  · obtain ⟨hnone, before, streak, earlier, rfl, hstreak⟩ := h hpos
    cases hls with
    | held hsome =>
        rw [hnone] at hsome
        contradiction
    | made _ hz =>
        exact ⟨before, _, List.append_assoc _ _ _, hstreak.next hz hys hcancel⟩

theorem OnStreak.turned (h : OnStreak xs w) (hturn : Turned w ys (.ok w')) :
    OnStreak (xs ++ ys) w' := by
  cases hturn with
  | accepted => exact fun hpos => absurd hpos (Nat.lt_irrefl 0)
  | lost hls hzs hcancel =>
      obtain ⟨before, streak, hxs, hstreak⟩ := h.lost hls hzs hcancel
      exact fun _ => ⟨rfl, before, streak, _, hxs, hstreak⟩

theorem Walked.onStreak (h : OnStreak [] w) (hwalked : Walked w xs w') : OnStreak xs w' := by
  induction hwalked with
  | start => exact h
  | turn _ _ hturn ih => exact ih.turned hturn

/-- A walk that has not begun. -/
structure Fresh (w : Walk) : Prop where
  sound : w.Sound
  poised : Poised [] w
  onStreak : OnStreak [] w

theorem fresh_start (start : RecordId) (maxRecoveries : Nat) (limit : Option Nat) :
    ((Walk.start start maxRecoveries).limited limit).Fresh where
  sound := sound_start start maxRecoveries limit
  poised := poised_start start maxRecoveries limit
  onStreak := by cases limit <;> exact fun hpos => absurd hpos (Nat.lt_irrefl 0)

/-! ## The end of a walk -/

/-- A walk whose last exchange lost the reservation was at the end of its budget. -/
theorem Finished.exists_streak (hfresh : w.Fresh) (hfinished : Finished w xs result)
    {front : List Exchange} {y : Exchange} (hxs : xs = front ++ [y]) (hy : loses y = true) :
    ∃ before streak failure, xs = before ++ streak ∧
      Streak (w.maxRecoveries + 1) streak failure ∧ result = .error failure := by
  cases hfinished with
  | @arrived _ w' hwalked hdone =>
      have hlast := hwalked.poised hfresh.sound hfresh.poised
      have hspent := (hlast.concluded_of_done hdone).spent front y hxs hy
      have hle := (hwalked.sound hfresh.sound).recoveries_le
      rw [hlast.losses_eq] at hspent
      omega
  | @failed xs ys w' failure hwalked _ hturn =>
      cases hturn with
      | unreserved _ hz =>
          obtain ⟨-, rfl⟩ := List.append_singleton_inj.mp hxs
          rw [(uneventful_of_reserves hz).2.2] at hy
          contradiction
      | refused _ hzs =>
          rw [← List.append_assoc] at hxs
          rw [hzs.ends.loses_last hxs] at hy
          contradiction
      | spent hls hzs hcancel hbudget =>
          obtain ⟨before, streak, heq, h⟩ :=
            (hwalked.onStreak hfresh.onStreak).lost hls hzs hcancel
          have hle := (hwalked.sound hfresh.sound).recoveries_le
          have hrecoveries : w'.recoveries = w.maxRecoveries := by
            rw [← hwalked.maxRecoveries_eq]
            omega
          rw [hrecoveries] at h
          exact ⟨before, streak, failure, heq, h, rfl⟩
      | failed _ hzs hcancel =>
          rw [← List.append_assoc] at hxs
          rw [hzs.ends.loses_last hxs, tellsOfLoss, hcancel] at hy
          contradiction

/-- A walk that a cancelled reservation made fail lost it in a read, or was not granted
a new one. -/
theorem Finished.failsByLoss_or {failure : Failure} (hfinished : Finished w xs (.error failure))
    (hcancel : failure.isReservationCancelled = true) :
    FailsByLoss xs (.error failure) ∨
      ∃ z ∈ xs, z.Performs .reserveSel (.error failure) := by
  generalize hresult : (Except.error failure : Except Failure (List Record)) = result at hfinished
  cases hfinished with
  | arrived => cases hresult
  | @failed xs _ _ _ _ _ hturn =>
      cases hresult
      cases hturn with
      | unreserved _ hz => exact .inr ⟨_, by simp, hz⟩
      | refused => contradiction
      | @spent ls _ _ _ _ hzs =>
          obtain ⟨front, y, read, rfl, hy⟩ := hzs.exists_lost hcancel
          exact .inl ⟨xs ++ ls ++ front, y, read, failure, by simp, hy, hcancel, rfl⟩
      | failed _ _ hkept =>
          rw [hkept] at hcancel
          contradiction

/-- Nothing comes after a streak that is longer than the budget. -/
theorem Concluded.eq_nil_of_streak {maxRecoveries : Nat} (h : Concluded maxRecoveries xs)
    {before streak after : List Exchange} {failure : Failure} (hxs : xs = before ++ streak ++ after)
    (hstreak : Streak (maxRecoveries + 1) streak failure) : after = [] := by
  obtain ⟨hcancel, front, y, read, hlast, hy⟩ := hstreak.exists_lost
  rcases after with _ | ⟨z, rest⟩
  · rfl
  · have hlosses := hstreak.losses_append before
    have htimely := h.timely (before ++ streak) z (by simp [hxs])
    have hz := htimely.renew (before ++ front) y (by rw [hlast, List.append_assoc])
      (loses_of_cancelled hy hcancel)
    rcases htimely.reserve hz with hnil | ⟨-, -, -, -, hle⟩
    · simp [hlast] at hnil
    · omega

/-- The result of a walk after a streak that is longer than the budget. -/
theorem Finished.ended (hfresh : w.Fresh) (hfinished : Finished w xs result)
    {before streak after : List Exchange} {failure : Failure}
    (hxs : xs = before ++ streak ++ after) (h : Streak (w.maxRecoveries + 1) streak failure) :
    after = [] ∧ result = .error failure := by
  obtain rfl := (hfinished.concluded hfresh.sound hfresh.poised).eq_nil_of_streak hxs h
  obtain ⟨hcancel, front, y, read, rfl, hy⟩ := h.exists_lost
  rw [List.append_nil, ← List.append_assoc] at hxs
  obtain ⟨before', streak', failure', hxs', h', hresult⟩ :=
    hfinished.exists_streak hfresh hxs (loses_of_cancelled hy hcancel)
  -- Both streaks end with the same read, which failed in one way only.
  obtain ⟨-, front', y', read', rfl, hy'⟩ := h'.exists_lost
  rw [hxs, ← List.append_assoc] at hxs'
  obtain ⟨-, rfl⟩ := List.append_singleton_inj.mp hxs'
  have hread : read' = read :=
    Option.some.inj ((ofRequest?_of_performs hy').symm.trans (ofRequest?_of_performs hy))
  subst hread
  exact ⟨rfl, by rw [hresult, Except.error.inj (hy'.unique hy)]⟩

theorem Finished.failsByLoss_iff (hfresh : w.Fresh) (hfinished : Finished w xs result) :
    FailsByLoss xs result ↔ HasStreak (w.maxRecoveries + 1) xs := by
  constructor
  · rintro ⟨front, y, read, failure, hxs, hy, hcancel, -⟩
    obtain ⟨before, streak, failure, hxs', h, -⟩ :=
      hfinished.exists_streak hfresh hxs (loses_of_cancelled hy hcancel)
    exact ⟨before, streak, [], failure, by rw [hxs', List.append_nil], h⟩
  · rintro ⟨before, streak, after, failure, hxs, h⟩
    obtain ⟨rfl, hresult⟩ := hfinished.ended hfresh hxs h
    obtain ⟨hcancel, front, y, read, rfl, hy⟩ := h.exists_lost
    exact ⟨before ++ front, y, read, failure, by simp [hxs], hy, hcancel, hresult⟩

theorem Finished.absorbed (hfresh : w.Fresh) (hfinished : Finished w xs result)
    {before after : List Exchange} {y : Exchange} (hxs : xs = before ++ y :: after)
    (hy : loses y = true) (hstreaks : ¬ HasStreak (w.maxRecoveries + 1) (before ++ [y])) :
    Resumes y after := by
  refine (hfinished.concluded hfresh.sound hfresh.poised).resumes hxs hy fun hnil => ?_
  rw [hnil] at hxs
  obtain ⟨front, streak, failure, hxs', h, -⟩ := hfinished.exists_streak hfresh hxs hy
  exact hstreaks ⟨front, streak, [], failure, by rw [← hxs, hxs', List.append_nil], h⟩

/-- The budget is counted from the last record that is complete. -/
theorem Concluded.refreshed {maxRecoveries : Nat} (h : Concluded maxRecoveries xs)
    {before middle after : List Exchange} {x y : Exchange}
    (hxs : xs = before ++ x :: middle ++ y :: after) (hx : completes x = true)
    (hy : loses y = true) (hle : (middle ++ [y]).countP loses ≤ maxRecoveries) :
    Resumes y after := by
  refine h.resumes hxs hy fun hnil => ?_
  have hlast : xs = before ++ [x] ++ (middle ++ [y]) := by simp [hxs, hnil]
  have hspent := h.spent (before ++ [x] ++ middle) y (by simp [hlast]) hy
  have hlosses := losses_append_le (before ++ [x]) (middle ++ [y])
  rw [losses_concat, if_pos hx] at hlosses
  rw [hlast] at hspent
  omega

/-- Where only replies carry the code, it makes a walk fail just when its streak is too
long. -/
theorem Finished.refused_iff (hfresh : w.Fresh) (hfinished : Finished w xs result)
    (hreplies : ∀ x ∈ xs, ∀ failure, x.reply = .error failure →
      failure.isReservationCancelled = false) :
    result = .error (.refused "Get SEL Entry" .reservationCancelled) ↔
      HasStreak (w.maxRecoveries + 1) xs := by
  constructor
  · intro hresult
    rw [hresult] at hfinished
    rcases hfinished.failsByLoss_or rfl with h | ⟨z, hz, hperforms⟩
    · exact (hfinished.failsByLoss_iff hfresh).mp h
    · rcases eq_refused_of_cancelled hperforms rfl with hreply | hname
      · have hkept := hreplies z hz _ hreply
        contradiction
      · simp [Command.name] at hname
  · rintro ⟨before, streak, after, failure, hxs, h⟩
    obtain ⟨-, hresult⟩ := hfinished.ended hfresh hxs h
    obtain ⟨hcancel, front, y, read, rfl, hy⟩ := h.exists_lost
    rcases eq_refused_of_cancelled hy hcancel with hreply | rfl
    · rw [hreplies y (by simp [hxs]) failure hreply] at hcancel
      contradiction
    · exact hresult

/-- Whatever the controller replies, a walk recovers from lost reservations as long as
they are not more in a row than its budget. -/
theorem budgeted_finish {σ : Type} (t : Transport σ) (s : σ) (start : RecordId)
    (maxRecoveries : Nat) (limit : Option Nat) :
    let r := ((Walk.start start maxRecoveries).limited limit).finish.run t s
    Budgeted maxRecoveries r.exchanges r.result := by
  intro r
  let w := (Walk.start start maxRecoveries).limited limit
  have hfinished : Finished w r.exchanges r.result := finished_run w t s
  have hfresh : w.Fresh := fresh_start start maxRecoveries limit
  have hbudget : w.maxRecoveries = maxRecoveries := maxRecoveries_limited _ limit
  rw [← hbudget]
  exact {
    fails_iff := hfinished.failsByLoss_iff hfresh
    ended := fun _ _ _ _ hxs h => hfinished.ended hfresh hxs h
    absorbed := fun _ _ _ hxs hy h => hfinished.absorbed hfresh hxs hy h
    refreshed := fun _ _ _ _ _ hxs hx hy hle =>
      (hfinished.concluded hfresh.sound hfresh.poised).refreshed hxs hx hy hle
    refused_iff := hfinished.refused_iff hfresh }

end Walk

end Baseboard.Sel
