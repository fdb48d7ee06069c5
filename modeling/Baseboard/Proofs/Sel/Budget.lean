import Baseboard.Proofs.Sel.Look
import Baseboard.Transport.Script

/-!
# Baseboard.Proofs.Sel.Budget

How an erasure ends, and how long it takes.

Every look counts against one budget, however it is answered, and a pause follows
each report of progress but that of the last look.  When all looks are answered, the
answers decide the result: the first report of completion within the budget, or else
the answer to the last look.

Main statement: `clearLog_decided`.
-/

namespace Baseboard.Sel

section

variable {e : Erasure} {reservation : Reservation} {acts : List Act}
variable {result : Except Failure Unit}

/-! ## The budget -/

/-- The looks of an erasure fit into what is left of its budget. -/
theorem Erased.length_looks_le (h : Erased e reservation acts result)
    (hleft : e.polls < e.maxPolls) :
    e.polls + (looks (Act.exchanges acts)).length ≤ e.maxPolls := by
  induction h with
  | completed hx => simpa [looks_cons_look hx, Nat.succ_le_iff] using hleft
  | exhausted hx => simpa [looks_cons_look hx, Nat.succ_le_iff] using hleft
  | spent hx => simpa [looks_cons_look hx, Nat.succ_le_iff] using hleft
  | failed hx => simpa [looks_cons_look hx, Nat.succ_le_iff] using hleft
  | unreserved hx _ _ hy =>
      simpa [looks_cons_look hx, looks_cons_reserve hy, Nat.succ_le_iff] using hleft
  | waited hx hnext _ ih =>
      have hlooks := ih hnext
      rw [Erasure.polls_progressed, Erasure.maxPolls_progressed] at hlooks
      simp only [Act.exchanges_cons_exchange, Act.exchanges_cons_pause, looks_cons_look hx,
        List.length_cons]
      omega
  | reserved hx _ hnext hy _ ih =>
      have hlooks := ih hnext
      rw [Erasure.polls_lost, Erasure.maxPolls_lost] at hlooks
      simp only [Act.exchanges_cons_exchange, looks_cons_look hx, looks_cons_reserve hy,
        List.length_cons]
      omega

/-! ## Pauses -/

/-- The acts of an erasure that has these exchanges: a pause follows each look that
found it in progress, but not the look that spends the budget.  `looked` looks came
before. -/
def paced (interval budget : Nat) : Nat → List Exchange → List Act
  | _, [] => []
  | looked, x :: xs =>
    if isLook x then
      if EraseReply.ofReply? x.reply = some (.reported .inProgress) ∧ looked + 1 ≠ budget then
        .exchange x :: .pause interval :: paced interval budget (looked + 1) xs
      else .exchange x :: paced interval budget (looked + 1) xs
    else .exchange x :: paced interval budget looked xs

theorem paced_reserve {interval budget looked : Nat} {y : Exchange} {xs : List Exchange}
    {result : Except Failure Reservation} (hy : y.Performs .reserveSel result) :
    paced interval budget looked (y :: xs) = .exchange y :: paced interval budget looked xs := by
  rw [paced, isLook_of_reserves hy, if_neg Bool.false_ne_true]

theorem paced_look {interval budget looked : Nat} {x : Exchange} {xs : List Exchange}
    {action : EraseAction} {result : Except Failure EraseProgress}
    (hx : x.Performs (.clearSel reservation action) result)
    (hlast : EraseReply.ofReply? x.reply ≠ some (.reported .inProgress) ∨ looked + 1 = budget) :
    paced interval budget looked (x :: xs) =
      .exchange x :: paced interval budget (looked + 1) xs := by
  have hno : ¬(EraseReply.ofReply? x.reply = some (.reported .inProgress) ∧
      looked + 1 ≠ budget) := by
    rintro ⟨hreply, hbudget⟩
    exact hlast.elim (absurd hreply) hbudget
  rw [paced, isLook_of_performs hx, if_pos rfl, if_neg hno]

theorem paced_wait {interval budget looked : Nat} {x : Exchange} {xs : List Exchange}
    {action : EraseAction} (hx : x.Performs (.clearSel reservation action) (.ok .inProgress))
    (hleft : looked + 1 < budget) :
    paced interval budget looked (x :: xs) =
      .exchange x :: .pause interval :: paced interval budget (looked + 1) xs := by
  rw [paced, isLook_of_performs hx, if_pos rfl, if_pos ⟨ofReply?_of_ok hx, Nat.ne_of_lt hleft⟩]

/-- An erasure pauses as it is told, and at no other time. -/
theorem Erased.acts_eq_paced (h : Erased e reservation acts result)
    (hleft : e.polls < e.maxPolls) :
    acts = paced e.interval e.maxPolls e.polls (Act.exchanges acts) := by
  induction h with
  | completed hx =>
      rw [Act.exchanges_cons_exchange, paced_look hx (.inl (by simp [ofReply?_of_ok hx]))]
      rfl
  | exhausted hx hspent =>
      rw [Act.exchanges_cons_exchange, paced_look hx (.inr (by omega))]
      rfl
  | waited hx hnext _ ih =>
      rw [Act.exchanges_cons_exchange, Act.exchanges_cons_pause, paced_wait hx hnext]
      exact congrArg (fun acts => _ :: _ :: acts) (ih hnext)
  | spent hx =>
      rw [Act.exchanges_cons_exchange, paced_look hx (.inl (ofReply?_of_error hx _))]
      rfl
  | unreserved hx _ _ hy =>
      rw [Act.exchanges_cons_exchange, Act.exchanges_cons_exchange,
        paced_look hx (.inl (ofReply?_of_error hx _)), paced_reserve hy]
      rfl
  | reserved hx _ hnext hy _ ih =>
      rw [Act.exchanges_cons_exchange, Act.exchanges_cons_exchange,
        paced_look hx (.inl (ofReply?_of_error hx _)), paced_reserve hy]
      exact congrArg (fun acts => _ :: _ :: acts) (ih hnext)
  | failed hx =>
      rw [Act.exchanges_cons_exchange, paced_look hx (.inl (ofReply?_of_error hx _))]
      rfl

/-! ## Completion -/

/-- Whether an exchange is a look that found the erasure complete. -/
def FindsComplete (x : Exchange) : Prop :=
  isLook x = true ∧ EraseReply.ofReply? x.reply = some (.reported .completed)

theorem forall_mem_dropLast_cons {α : Type} {p : α → Prop} {x : α} {xs : List α} (hx : p x)
    (hxs : ∀ y ∈ xs.dropLast, p y) : ∀ y ∈ (x :: xs).dropLast, p y := by
  cases xs with
  | nil => simp
  | cons z zs => simpa [hx] using hxs

/-- After a report of completion nothing is sent. -/
theorem Erased.not_findsComplete (h : Erased e reservation acts result) :
    ∀ x ∈ (Act.exchanges acts).dropLast, ¬FindsComplete x := by
  induction h with
  | completed => simp
  | exhausted => simp
  | spent => simp
  | failed => simp
  | unreserved hx =>
      exact forall_mem_dropLast_cons (fun h => ofReply?_of_error hx _ h.2) (by simp)
  | waited hx _ _ ih =>
      exact forall_mem_dropLast_cons (fun ⟨_, h⟩ => by simp [ofReply?_of_ok hx] at h) ih
  | reserved hx _ _ hy _ ih =>
      exact forall_mem_dropLast_cons (fun h => ofReply?_of_error hx _ h.2)
        (forall_mem_dropLast_cons (fun ⟨h, _⟩ => by simp [isLook_of_reserves hy] at h) ih)

/-! ## The result -/

/-- Whether each look was answered as told; `looked` looks came before. -/
def AnsweredBy (replies : Nat → EraseReply) (looked : Nat) (xs : List Exchange) : Prop :=
  ∀ i x, (looks xs)[i]? = some x → EraseReply.ofReply? x.reply = some (replies (looked + i))

section

variable {replies : Nat → EraseReply} {looked : Nat} {x y : Exchange} {xs : List Exchange}

theorem AnsweredBy.head {action : EraseAction} {result : Except Failure EraseProgress}
    (h : AnsweredBy replies looked (x :: xs))
    (hx : x.Performs (.clearSel reservation action) result) :
    EraseReply.ofReply? x.reply = some (replies looked) :=
  h 0 x (by rw [looks_cons_look hx, List.getElem?_cons_zero])

theorem AnsweredBy.tail {action : EraseAction} {result : Except Failure EraseProgress}
    (h : AnsweredBy replies looked (x :: xs))
    (hx : x.Performs (.clearSel reservation action) result) :
    AnsweredBy replies (looked + 1) xs := by
  intro i z hz
  rw [Nat.add_assoc, Nat.add_comm 1 i]
  exact h (i + 1) z (by rwa [looks_cons_look hx, List.getElem?_cons_succ])

theorem AnsweredBy.of_reserve {result : Except Failure Reservation}
    (h : AnsweredBy replies looked (y :: xs)) (hy : y.Performs .reserveSel result) :
    AnsweredBy replies looked xs := by
  unfold AnsweredBy at h
  rwa [looks_cons_reserve hy] at h

end

/-- The result of an erasure whose looks are answered so; `looked` looks came before. -/
inductive Decided (budget looked : Nat) (replies : Nat → EraseReply) :
    Except Failure Unit → Prop where
  | completed {i : Nat} (hlooked : looked ≤ i) (hi : i < budget)
      (hreply : replies i = .reported .completed) : Decided budget looked replies (.ok ())
  | exhausted (hopen : ∀ i, looked ≤ i → i < budget → replies i ≠ .reported .completed)
      (hlast : replies (budget - 1) = .reported .inProgress) :
      Decided budget looked replies (.error (.eraseTimeout budget))
  | cancelled (hopen : ∀ i, looked ≤ i → i < budget → replies i ≠ .reported .completed)
      (hlast : replies (budget - 1) = .cancelled) :
      Decided budget looked replies (.error (.refused "Clear SEL" .reservationCancelled))

/-- An answer that is not the completion decides nothing. -/
theorem Decided.of_succ {budget looked : Nat} {replies : Nat → EraseReply}
    (h : Decided budget (looked + 1) replies result)
    (hreply : replies looked ≠ .reported .completed) : Decided budget looked replies result := by
  have hopen (hrest : ∀ i, looked + 1 ≤ i → i < budget →
      replies i ≠ .reported .completed) :
      ∀ i, looked ≤ i → i < budget → replies i ≠ .reported .completed := by
    intro i hlooked hi
    rcases Nat.eq_or_lt_of_le hlooked with rfl | hlt
    · exact hreply
    · exact hrest i hlt hi
  cases h with
  | completed hlooked hi hcompleted => exact .completed (by omega) hi hcompleted
  | exhausted hrest hlast => exact .exhausted (hopen hrest) hlast
  | cancelled hrest hlast => exact .cancelled (hopen hrest) hlast

/-- The answers decide the result, when reservations are granted. -/
theorem Erased.decided {replies : Nat → EraseReply} (h : Erased e reservation acts result)
    (hleft : e.polls < e.maxPolls)
    (hgrants : ∀ x ∈ Act.exchanges acts,
      isReserve x = true → grants x.reply = true)
    (hreplies : AnsweredBy replies e.polls (Act.exchanges acts)) :
    Decided e.maxPolls e.polls replies result := by
  -- the last look is the only one left to ask about
  have hopen {budget looked : Nat} (hbudget : budget = looked + 1)
      (hreply : replies looked ≠ .reported .completed) (i : Nat) (hlooked : looked ≤ i)
      (hi : i < budget) : replies i ≠ .reported .completed := by
    obtain rfl : i = looked := by omega
    exact hreply
  induction h with
  | completed hx =>
      have hreply := Option.some.inj ((hreplies.head hx).symm.trans (ofReply?_of_ok hx))
      exact .completed (Nat.le_refl _) hleft hreply
  | @exhausted e _ x hx hspent =>
      have hreply := Option.some.inj ((hreplies.head hx).symm.trans (ofReply?_of_ok hx))
      have hbudget : e.maxPolls = e.polls + 1 := by omega
      rw [← hbudget]
      exact .exhausted (hopen hbudget (by simp [hreply])) (by rw [hbudget]; exact hreply)
  | waited hx hnext _ ih =>
      have hreply := Option.some.inj ((hreplies.head hx).symm.trans (ofReply?_of_ok hx))
      refine .of_succ (ih hnext (fun y hy => hgrants y (.tail _ hy)) (hreplies.tail hx)) ?_
      simp [hreply]
  | @spent e _ x failure hx hcancel hspent =>
      obtain ⟨hreply, rfl⟩ := eq_cancelled_of_error hx (hreplies.head hx)
      have hbudget : e.maxPolls = e.polls + 1 := by omega
      exact .cancelled (hopen hbudget (by simp [hreply])) (by rw [hbudget]; exact hreply)
  | @unreserved e _ x y failure refusal hx hcancel hnext hy =>
      obtain ⟨_, hgranted⟩ :=
        reserves_of_grants hy (hgrants y (by simp) (isReserve_of_performs hy))
      contradiction
  | reserved hx _ hnext hy _ ih =>
      obtain ⟨hreply, -⟩ := eq_cancelled_of_error hx (hreplies.head hx)
      refine .of_succ (ih hnext (fun y hy => hgrants y (.tail _ (.tail _ hy)))
        ((hreplies.tail hx).of_reserve hy)) ?_
      simp [hreply]
  | failed hx hcancel =>
      obtain ⟨-, rfl⟩ := eq_cancelled_of_error hx (hreplies.head hx)
      contradiction

/-- What the answers decide, said of each result. -/
theorem Decided.result_iff {budget : Nat} {replies : Nat → EraseReply}
    (h : Decided budget 0 replies result) :
    (result = .ok () ↔ ∃ i < budget, replies i = .reported .completed) ∧
      ((∀ i < budget, replies i ≠ .reported .completed) →
        (result = .error (.eraseTimeout budget) ↔
          replies (budget - 1) = .reported .inProgress) ∧
        (result = .error (.refused "Clear SEL" .reservationCancelled) ↔
          replies (budget - 1) = .cancelled)) := by
  cases h with
  | @completed i _ hi hreply =>
      exact ⟨⟨fun _ => ⟨i, hi, hreply⟩, fun _ => rfl⟩,
        fun hopen => absurd hreply (hopen i hi)⟩
  | exhausted hopen hlast =>
      have hnone : ¬∃ i < budget, replies i = .reported .completed :=
        fun ⟨i, hi, hreply⟩ => hopen i (Nat.zero_le i) hi hreply
      simp [hlast, hnone]
  | cancelled hopen hlast =>
      have hnone : ¬∃ i < budget, replies i = .reported .completed :=
        fun ⟨i, hi, hreply⟩ => hopen i (Nat.zero_le i) hi hreply
      simp [hlast, hnone]

end

/-! ## Clearing the log -/

section

variable {interval maxPolls : Nat} {acts : List Act} {result : Except Failure Unit}

theorem Cleared.length_looks_le (h : Cleared interval maxPolls acts result) :
    (looks (Act.exchanges acts)).length ≤ max maxPolls 1 := by
  cases h with
  | unreserved hy => simp [looks_cons_reserve hy]
  | reserved hy rest =>
      have hlooks := rest.length_looks_le (Nat.le_max_right maxPolls 1)
      rw [Act.exchanges_cons_exchange, looks_cons_reserve hy]
      exact Nat.le_trans (Nat.le_add_left _ _) hlooks

theorem Cleared.acts_eq_paced (h : Cleared interval maxPolls acts result) :
    acts = paced interval (max maxPolls 1) 0 (Act.exchanges acts) := by
  cases h with
  | unreserved hy =>
      rw [Act.exchanges_cons_exchange, paced_reserve hy]
      rfl
  | reserved hy rest =>
      rw [Act.exchanges_cons_exchange, paced_reserve hy]
      exact congrArg (_ :: ·) (rest.acts_eq_paced (Nat.le_max_right maxPolls 1))

theorem Cleared.not_findsComplete (h : Cleared interval maxPolls acts result) :
    ∀ x ∈ (Act.exchanges acts).dropLast, ¬FindsComplete x := by
  cases h with
  | unreserved => simp
  | reserved hy rest =>
      exact forall_mem_dropLast_cons (fun ⟨h, _⟩ => by simp [isLook_of_reserves hy] at h)
        rest.not_findsComplete

theorem Cleared.decided {replies : Nat → EraseReply} (h : Cleared interval maxPolls acts result)
    (hgrants : ∀ x ∈ Act.exchanges acts,
      isReserve x = true → grants x.reply = true)
    (hreplies : AnsweredBy replies 0 (Act.exchanges acts)) :
    Decided (max maxPolls 1) 0 replies result := by
  cases h with
  | @unreserved y refusal hy =>
      obtain ⟨_, hgranted⟩ :=
        reserves_of_grants hy (hgrants y (by simp) (isReserve_of_performs hy))
      contradiction
  | reserved hy rest =>
      exact rest.decided (Nat.le_max_right maxPolls 1) (fun x hx => hgrants x (.tail _ hx))
        (hreplies.of_reserve hy)

end

/-- Clearing the log sends no more erase commands than its budget has, and pauses for
the interval after each report of progress but that of the last one.  A report of
completion is the end.  When every reservation is granted and every erase command is
answered, the answers within the budget decide the result, whatever would have come
after the last one that was asked for. -/
theorem clearLog_decided {σ : Type} (interval maxPolls : Nat) (t : Transport σ) (s : σ) :
    let budget := max maxPolls 1
    let r := (clearLog interval maxPolls).run t s
    (looks r.exchanges).length ≤ budget ∧
      r.acts = paced interval budget 0 r.exchanges ∧
      (∀ x ∈ r.exchanges.dropLast, ¬FindsComplete x) ∧
      ((∀ x ∈ r.exchanges, isReserve x = true → grants x.reply = true) →
        ∀ replies : Nat → EraseReply, AnsweredBy replies 0 r.exchanges →
          (r.result = .ok () ↔ ∃ i < budget, replies i = .reported .completed) ∧
          ((∀ i < budget, replies i ≠ .reported .completed) →
            (r.result = .error (.eraseTimeout budget) ↔
              replies (budget - 1) = .reported .inProgress) ∧
            (r.result = .error (.refused "Clear SEL" .reservationCancelled) ↔
              replies (budget - 1) = .cancelled))) := by
  intro budget r
  have hcleared : Cleared interval maxPolls r.acts r.result := cleared_run interval maxPolls t s
  rw [Dialogue.Run.exchanges_eq]
  exact ⟨hcleared.length_looks_le, hcleared.acts_eq_paced, hcleared.not_findsComplete,
    fun hgrants replies hreplies => (hcleared.decided hgrants hreplies).result_iff⟩

/-- The replies of a controller that reports progress, then cancels the reservation,
and is done when it is asked again. -/
def interruptedErasure : List (Except Failure Response) :=
  [.ok ⟨0x00, [7, 0]⟩, .ok ⟨0x00, [0]⟩, .ok ⟨0xC5, []⟩, .ok ⟨0x00, [8, 0]⟩,
    .ok ⟨0x00, [1]⟩]

/-- The answers in it, with more of the last one. -/
def interruptedReplies : Nat → EraseReply
  | 0 => .reported .inProgress
  | 1 => .cancelled
  | _ => .reported .completed

/-- The third of three looks is in time. -/
theorem clearLog_interruptedErasure :
    let r := (clearLog 250 3).run Script.transport (.start interruptedErasure [])
    (∀ x ∈ r.exchanges, isReserve x = true → grants x.reply = true) ∧
      AnsweredBy interruptedReplies 0 r.exchanges ∧ r.result = .ok () := by
  intro r
  have hgrants : ∀ x ∈ r.exchanges,
      isReserve x = true → grants x.reply = true := by decide +kernel
  have hlooks : (looks r.exchanges).map (EraseReply.ofReply? ·.reply) =
      [some (interruptedReplies 0), some (interruptedReplies 1), some (interruptedReplies 2)] := by
    decide +kernel
  have hreplies : AnsweredBy interruptedReplies 0 r.exchanges := by
    intro i x hx
    have hi : ((looks r.exchanges).map (EraseReply.ofReply? ·.reply))[i]? =
        some (EraseReply.ofReply? x.reply) := by
      rw [List.getElem?_map, hx]
      rfl
    rw [hlooks] at hi
    match i, hi with
    | 0, hi => exact (Option.some.inj hi).symm
    | 1, hi => exact (Option.some.inj hi).symm
    | 2, hi => exact (Option.some.inj hi).symm
  exact ⟨hgrants, hreplies,
    ((clearLog_decided 250 3 Script.transport _).2.2.2 hgrants _ hreplies).1.mpr
      ⟨2, by decide, rfl⟩⟩

end Baseboard.Sel
