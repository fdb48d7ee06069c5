import Baseboard.Attempts

/-!
# Baseboard.Proofs.Attempts

How often an operation is attempted.  An operation is told the number of the attempt, and from
each state it comes to an outcome and leaves another state.  Attempts that are made one after
the other, whatever they come to, give a sequence of outcomes (`outcomeAt`); of these only the
first that is not a timeout matters (`FirstAnswer`), or the last that may be made at all.

The number of an attempt may as well be counted in 32 bits (`countedFrom`): it is raised only
while it is below the number of retries, so it does not wrap around.

Main statement: which attempts are made, in which order, and to what the last of them comes
(`untilAnswered_decided`).
-/

namespace Baseboard

variable {σ α : Type}

section

variable {op : Nat → StateM σ (Except Failure α)} {s : σ}

/-! ## One attempt -/

/-- What goes unanswered is attempted again. -/
theorem attemptsFrom_of_timeout (attempt left : Nat)
    (h : ((op attempt).run s).1 = .error .timeout) :
    (attemptsFrom op attempt (left + 1)).run s =
      (attemptsFrom op (attempt + 1) left).run ((op attempt).run s).2 := by
  rw [attemptsFrom, StateT.run_bind]
  dsimp only [bind, Id]
  rw [h]

/-- Any other outcome is the end of it. -/
theorem attemptsFrom_of_answered (attempt left : Nat)
    (h : ((op attempt).run s).1 ≠ .error .timeout) :
    (attemptsFrom op attempt (left + 1)).run s = (op attempt).run s := by
  rw [attemptsFrom, StateT.run_bind]
  dsimp only [bind, Id]
  split
  · next htimeout => exact absurd htimeout h
  · rfl

end

/-! ## Attempts one after the other -/

/-- The state that the first `n` attempts leave, whatever they come to. -/
def stateAfter (op : Nat → StateM σ (Except Failure α)) (s : σ) : Nat → σ
  | 0 => s
  | n + 1 => ((op n).run (stateAfter op s n)).2

/-- What attempt number `n` comes to, once the attempts before it have been made. -/
def outcomeAt (op : Nat → StateM σ (Except Failure α)) (s : σ) (n : Nat) : Except Failure α :=
  ((op n).run (stateAfter op s n)).1

/-- An operation that also keeps the numbers of its attempts, in order. -/
def noted (op : Nat → StateM σ (Except Failure α)) (n : Nat) :
    StateM (σ × List Nat) (Except Failure α) := fun s =>
  let made := (op n).run s.1
  (made.1, made.2, s.2 ++ [n])

/-- Noting the numbers changes nothing, and they are noted one by one. -/
theorem stateAfter_noted (op : Nat → StateM σ (Except Failure α)) (s : σ) (n : Nat) :
    stateAfter (noted op) (s, []) n = (stateAfter op s n, List.range n) := by
  induction n with
  | zero => rfl
  | succ n ih =>
      rw [stateAfter, ih, List.range_succ]
      rfl

theorem outcomeAt_noted (op : Nat → StateM σ (Except Failure α)) (s : σ) :
    outcomeAt (noted op) (s, []) = outcomeAt op s := by
  funext n
  rw [outcomeAt, stateAfter_noted]
  rfl

/-! ## The last attempt -/

/-- Whether outcome number `j` is the first that is not a timeout. -/
structure FirstAnswer (outcomes : Nat → Except Failure α) (j : Nat) : Prop where
  answered : outcomes j ≠ .error .timeout
  unanswered : ∀ n < j, outcomes n = .error .timeout

/-- Whether attempts that may go on to number `bound` end with number `last`: all before it
went unanswered, and it was answered or no more were allowed. -/
structure EndsWith (outcomes : Nat → Except Failure α) (bound last : Nat) : Prop where
  le : last ≤ bound
  unanswered : ∀ n < last, outcomes n = .error .timeout
  ended : last = bound ∨ outcomes last ≠ .error .timeout

section

variable {outcomes : Nat → Except Failure α} {bound last last' j : Nat}

namespace EndsWith

theorem le_of (h : EndsWith outcomes bound last) (h' : EndsWith outcomes bound last') :
    last' ≤ last := by
  refine Nat.le_of_not_lt fun hlt => ?_
  rcases h.ended with heq | hanswered
  · have := h'.le
    omega
  · exact hanswered (h'.unanswered last hlt)

theorem unique (h : EndsWith outcomes bound last) (h' : EndsWith outcomes bound last') :
    last = last' :=
  Nat.le_antisymm (h'.le_of h) (h.le_of h')

/-- Of the attempts that are made only the last one can be answered. -/
theorem eq_of_answered (h : EndsWith outcomes bound last) {n : Nat} (hle : n ≤ last)
    (hanswered : outcomes n ≠ .error .timeout) : n = last :=
  Nat.le_antisymm hle (Nat.le_of_not_lt fun hlt => hanswered (h.unanswered n hlt))

/-- Where nothing is answered, the last attempt is the last that is allowed. -/
theorem of_unanswered (h : ∀ n, outcomes n = .error .timeout) (bound : Nat) :
    EndsWith outcomes bound bound :=
  ⟨Nat.le_refl bound, fun n _ => h n, .inl rfl⟩

end EndsWith

/-- The attempts end with the first that is answered, if that is allowed. -/
theorem FirstAnswer.endsWith (h : FirstAnswer outcomes j) (bound : Nat) :
    EndsWith outcomes bound (min j bound) := by
  refine ⟨Nat.min_le_right j bound, fun n hn => h.unanswered n (by omega), ?_⟩
  by_cases hle : j ≤ bound
  · rw [Nat.min_eq_left hle]
    exact .inr h.answered
  · exact .inl (Nat.min_eq_right (by omega))

/-- The outcome that the attempts end with. -/
theorem FirstAnswer.outcome_min (h : FirstAnswer outcomes j) (bound : Nat) :
    outcomes (min j bound) = if j ≤ bound then outcomes j else .error .timeout := by
  by_cases hle : j ≤ bound
  · rw [if_pos hle, Nat.min_eq_left hle]
  · rw [if_neg hle, Nat.min_eq_right (by omega)]
    exact h.unanswered bound (by omega)

end

/-- Attempts from number `attempt` on, where those before it went unanswered, end with one of
them: its outcome is the result, and no other attempt follows. -/
theorem exists_run_attemptsFrom (op : Nat → StateM σ (Except Failure α)) (s : σ)
    (attempt left : Nat) (h : ∀ n < attempt, outcomeAt op s n = .error .timeout) :
    ∃ last, EndsWith (outcomeAt op s) (attempt + left) last ∧
      (attemptsFrom op attempt left).run (stateAfter op s attempt) =
        (outcomeAt op s last, stateAfter op s (last + 1)) := by
  induction left generalizing attempt with
  | zero => exact ⟨attempt, ⟨Nat.le_refl attempt, h, .inl rfl⟩, rfl⟩
  | succ left ih =>
      by_cases htimeout : outcomeAt op s attempt = .error .timeout
      · have hnext : ∀ n < attempt + 1, outcomeAt op s n = .error .timeout := by
          intro n hn
          rcases Nat.lt_succ_iff_lt_or_eq.mp hn with hlt | rfl
          · exact h n hlt
          · exact htimeout
        obtain ⟨last, hends, hrun⟩ := ih (attempt + 1) hnext
        rw [Nat.add_assoc, Nat.add_comm 1 left] at hends
        refine ⟨last, hends, ?_⟩
        rw [attemptsFrom_of_timeout attempt left htimeout]
        -- the state that this attempt leaves is `stateAfter` the next number
        exact hrun
      · refine ⟨attempt, ⟨Nat.le_add_right _ _, h, .inr htimeout⟩, ?_⟩
        rw [attemptsFrom_of_answered attempt left htimeout]
        rfl

theorem exists_run_untilAnswered (op : Nat → StateM σ (Except Failure α)) (s : σ)
    (retries : Nat) :
    ∃ last, EndsWith (outcomeAt op s) retries last ∧
      (untilAnswered retries op).run s = (outcomeAt op s last, stateAfter op s (last + 1)) := by
  obtain ⟨last, hends, hrun⟩ := exists_run_attemptsFrom op s 0 retries nofun
  rw [Nat.zero_add] at hends
  exact ⟨last, hends, hrun⟩

/-! ## Counting in 32 bits -/

/-- A number that is below another one can be raised without wrapping around. -/
theorem toNat_add_one_of_lt {n bound : UInt32} (h : n < bound) :
    (n + 1).toNat = n.toNat + 1 := by
  have hlt := UInt32.lt_iff_toNat_lt.mp h
  have hbound := bound.toNat_lt
  rw [UInt32.toNat_add, UInt32.toNat_one]
  omega

section

variable {m : Type → Type} [Monad m]

/-- The attempts from number `attempt` on, with their number in 32 bits: it is raised after
each timeout as long as it is below `retries`. -/
def countedFrom (op : UInt32 → m (Except Failure α)) (retries attempt : UInt32) :
    m (Except Failure α) := do
  match ← op attempt with
  | .error failure =>
    if h : failure.isTimeout ∧ attempt < retries then countedFrom op retries (attempt + 1)
    else pure (.error failure)
  | .ok a => pure (.ok a)
termination_by retries.toNat - attempt.toNat
decreasing_by
  have hlt := UInt32.lt_iff_toNat_lt.mp h.2
  rw [toNat_add_one_of_lt h.2]
  omega

/-- Counting in 32 bits is counting. -/
theorem countedFrom_eq [LawfulMonad m] (op : Nat → m (Except Failure α))
    (retries attempt : UInt32) (left : Nat) (h : attempt.toNat + left = retries.toNat) :
    countedFrom (fun n => op n.toNat) retries attempt = attemptsFrom op attempt.toNat left := by
  induction left generalizing attempt with
  | zero =>
      -- the number has come to `retries`, so that even a timeout is the end
      have hlast : ¬attempt < retries := by
        rw [UInt32.lt_iff_toNat_lt]
        omega
      refine Eq.trans ?_ (bind_pure (op attempt.toNat))
      rw [countedFrom]
      congr 1
      funext outcome
      cases outcome with
      | ok a => rfl
      | error failure => exact dif_neg fun h => hlast h.2
  | succ left ih =>
      have hlt : attempt < retries := by
        rw [UInt32.lt_iff_toNat_lt]
        omega
      have hnext : (attempt + 1).toNat = attempt.toNat + 1 := toNat_add_one_of_lt hlt
      have hrest := ih (attempt + 1) (by omega)
      rw [hnext] at hrest
      rw [countedFrom, attemptsFrom]
      congr 1
      funext outcome
      cases outcome with
      | ok a => rfl
      | error failure =>
          cases failure with
          | timeout => exact (dif_pos ⟨rfl, hlt⟩).trans hrest
          | _ => rfl

/-- Attempts counted in 32 bits are the attempts of `untilAnswered`. -/
theorem countedFrom_zero [LawfulMonad m] (op : Nat → m (Except Failure α)) (retries : UInt32) :
    countedFrom (fun n => op n.toNat) retries 0 = untilAnswered retries.toNat op :=
  countedFrom_eq op retries 0 retries.toNat (Nat.zero_add _)

end

/-! ## Which attempts are made -/

/-- An operation is attempted with the numbers 0, 1, 2 and so on, up to the first attempt that
is answered or to number `retries`, whichever comes first.  The outcome of the last attempt is
the result, unchanged; a failure other than a timeout, also one that wraps a timeout, is the
last.  The number never passes `retries`, and is the same if it is counted in 32 bits. -/
theorem untilAnswered_decided (retries : UInt32) (op : Nat → StateM σ (Except Failure α))
    (s : σ) :
    ∃ last ≤ retries.toNat,
      (untilAnswered retries.toNat op).run s =
        (outcomeAt op s last, stateAfter op s (last + 1)) ∧
      (untilAnswered retries.toNat (noted op)).run (s, []) =
        (outcomeAt op s last, stateAfter op s (last + 1), List.range (last + 1)) ∧
      countedFrom (fun n => op n.toNat) retries 0 = untilAnswered retries.toNat op ∧
      (∀ j, FirstAnswer (outcomeAt op s) j → last = min j retries.toNat ∧
        outcomeAt op s last = if j ≤ retries.toNat then outcomeAt op s j else .error .timeout) ∧
      ((∀ n, outcomeAt op s n = .error .timeout) → last = retries.toNat) ∧
      ∀ n ≤ last, ∀ failure ≠ .timeout, outcomeAt op s n = .error failure → n = last := by
  obtain ⟨last, hends, hrun⟩ := exists_run_untilAnswered op s retries.toNat
  obtain ⟨last', hends', hrun'⟩ := exists_run_untilAnswered (noted op) (s, []) retries.toNat
  -- the outcomes are the same with the numbers noted, and they tell the last attempt
  rw [outcomeAt_noted] at hends' hrun'
  rw [stateAfter_noted, ← hends.unique hends'] at hrun'
  refine ⟨last, hends.le, hrun, hrun', countedFrom_zero op retries, fun j hj => ?_, fun h => ?_,
    fun n hle failure hfailure houtcome => ?_⟩
  · have hlast : last = min j retries.toNat := hends.unique (hj.endsWith retries.toNat)
    exact ⟨hlast, by rw [hlast, hj.outcome_min]⟩
  · exact hends.unique (.of_unanswered h retries.toNat)
  · refine hends.eq_of_answered hle fun htimeout => hfailure ?_
    rw [houtcome] at htimeout
    exact Except.error.inj htimeout

/-- With the largest number of retries, a timeout inside a failed read is not retried, and an
operation that is never answered is attempted 4294967296 times. -/
theorem untilAnswered_mostRetries :
    let op (n : Nat) : StateM Nat (Except Failure Unit) := fun calls =>
      (.error (if n < 2 then .timeout else .fruRead 24 [0x41] .timeout), calls + 1)
    let never (_ : Nat) : StateM Unit (Except Failure Unit) := pure (.error .timeout)
    (FirstAnswer (outcomeAt op 0) 2 ∧
      (untilAnswered (UInt32.toNat 0xFFFFFFFF) (noted op)).run (0, []) =
        (.error (.fruRead 24 [0x41] .timeout), 3, [0, 1, 2])) ∧
    (∀ n, outcomeAt never () n = .error .timeout) ∧
      (untilAnswered (UInt32.toNat 0xFFFFFFFF) (noted never)).run ((), []) =
        (.error .timeout, (), List.range 4294967296) := by
  intro op never
  have hfirst : FirstAnswer (outcomeAt op 0) 2 :=
    ⟨nofun, fun n hn => congrArg Except.error (if_pos hn)⟩
  have hnever : ∀ n, outcomeAt never () n = .error .timeout := fun _ => rfl
  obtain ⟨last, -, -, hrun, -, hlast, -, hfailure⟩ := untilAnswered_decided 0xFFFFFFFF op 0
  obtain ⟨last', -, -, hrun', -, -, hlast', -⟩ := untilAnswered_decided 0xFFFFFFFF never ()
  have hle : 2 ≤ last := Nat.le_of_eq ((hlast 2 hfirst).1.trans (by decide)).symm
  rw [← hfailure 2 hle (.fruRead 24 [0x41] .timeout) nofun rfl] at hrun
  have hstate : stateAfter never () (last' + 1) = () := rfl
  have hcount : last' + 1 = 4294967296 := by rw [hlast' hnever]; rfl
  rw [hnever last', hstate, hcount] at hrun'
  exact ⟨⟨hfirst, hrun⟩, hnever, hrun'⟩

end Baseboard
