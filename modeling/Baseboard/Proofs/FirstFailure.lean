import Baseboard.Proofs.Command.Wire
import Baseboard.Proofs.Fru.Salvage
import Baseboard.Proofs.Sel.Turn
import Baseboard.Proofs.Sel.Window

/-!
# Baseboard.Proofs.FirstFailure

The first exchange that fails is the last act of a run, and its failure is the result.
Only a cancelled reservation may be absorbed, by a walk that reads a record and by an
erasure that looks how far it is; nothing else is, not even the same code in reply to a
request for a reservation.  The failure is passed on as it is; only that of a chunk of an
inventory is wrapped, once.

`Exchange.failure?` reads off the wire why an exchange failed, and `EndsAtFailure` says
of the acts of a run and its result that they end so.  Main statement:
`run_endsAtFailure`.
-/

namespace Baseboard

variable {σ α β : Type}

/-! ## Failed exchanges -/

/-- Why a result is a failure, if it is one. -/
def failureOf : Except Failure α → Option Failure
  | .ok _ => none
  | .error failure => some failure

/-- The reply says the same whatever the logical unit that was asked. -/
theorem parse_getFruInventoryAreaInfo_lun (device lun lun' : UInt8) :
    (Command.getFruInventoryAreaInfo device lun').parse =
      (Command.getFruInventoryAreaInfo device lun).parse := by
  funext response
  unfold Command.parse Command.decode
  simp only [Command.read?]
  cases Fru.Extent.read? response.data <;> rfl

/-- Whether a command fails does not depend on what is cut off its logical unit. -/
theorem failureOf_outcome_reduced (c : Command) (reply : Except Failure Response) :
    failureOf (c.reduced.outcome reply) = failureOf (c.outcome reply) := by
  cases c with
  | readFruData read =>
      rw [Command.reduced, Command.outcome, Command.outcome, Fru.parse_readFruData_lun]
  | getFruInventoryAreaInfo device lun =>
      rw [Command.reduced, Command.outcome, Command.outcome, parse_getFruInventoryAreaInfo_lun]
  | _ => rfl

/-- Why an exchange failed: what its reply says to the command that its request sends;
`none` when the command succeeded. -/
def Exchange.failure? (x : Exchange) : Option Failure :=
  (Command.ofRequest? x.request).bind fun c => failureOf (c.outcome x.reply)

theorem Exchange.Performs.failure?_eq {x : Exchange} {c : Command}
    {result : Except Failure c.Output} (h : x.Performs c result) :
    x.failure? = failureOf result := by
  rw [Exchange.failure?, h.request_eq, Command.ofRequest?_request, Option.bind_some,
    failureOf_outcome_reduced, h.outcome_eq]

/-- An exchange that does not end a dialogue: its command succeeded, or its failure is
one of those absorbed. -/
structure Exchange.Passes (absorbs : Exchange → Failure → Bool) (x : Exchange) : Prop where
  sends : ∃ c, Command.ofRequest? x.request = some c
  absorbed : ∀ failure, x.failure? = some failure → absorbs x failure = true

namespace Exchange.Performs

variable {x : Exchange} {c : Command} {absorbs : Exchange → Failure → Bool}

theorem sends {result : Except Failure c.Output} (h : x.Performs c result) :
    ∃ c', Command.ofRequest? x.request = some c' :=
  ⟨c.reduced, by rw [h.request_eq, Command.ofRequest?_request]⟩

theorem passes_of_ok {output : c.Output} (h : x.Performs c (.ok output)) : x.Passes absorbs where
  sends := h.sends
  absorbed failure hfailure := by
    rw [h.failure?_eq] at hfailure
    contradiction

theorem passes_of_error {failure : Failure} (h : x.Performs c (.error failure))
    (habsorbs : absorbs x failure = true) : x.Passes absorbs where
  sends := h.sends
  absorbed other hother := by
    rw [h.failure?_eq] at hother
    cases hother
    exact habsorbs

end Exchange.Performs

/-! ## Runs that end at a failure -/

/-- Acts of which none comes after an exchange that failed, but for the failures that are
absorbed.  The failure of that exchange is the result, in the way in which failures are
reported after the acts before it. -/
structure EndsAtFailure (absorbs : Exchange → Failure → Bool)
    (reports : List Act → Failure → Failure → Prop) (acts : List Act)
    (result : Except Failure α) : Prop where
  /-- Every request sends a command, so that its reply says whether it failed. -/
  sends : ∀ x, .exchange x ∈ acts → ∃ c, Command.ofRequest? x.request = some c
  ends : ∀ before x after failure, acts = before ++ .exchange x :: after →
    x.failure? = some failure → absorbs x failure = false →
      after = [] ∧ ∃ reported, result = .error reported ∧ reports before failure reported

/-- The failure is reported as it is. -/
def unchanged (_before : List Act) (failure reported : Failure) : Prop := reported = failure

/-- A failure after the first `n` acts is reported as the source of a broken reading; one
among them is reported as it is. -/
def wrappedAfter (n : Nat) (before : List Act) (failure reported : Failure) : Prop :=
  if before.length < n then reported = failure
  else ∃ offset collected, reported = .fruRead offset collected failure

theorem wrappedAfter_succ_cons (n : Nat) (act : Act) (before : List Act) :
    wrappedAfter (n + 1) (act :: before) = wrappedAfter n before := by
  funext failure reported
  simp only [wrappedAfter, List.length_cons, Nat.add_lt_add_iff_right]

section

variable {absorbs : Exchange → Failure → Bool}
variable {reports : List Act → Failure → Failure → Prop}
variable {acts : List Act} {xs : List Exchange} {x : Exchange} {result : Except Failure α}

theorem endsAtFailure_nil : EndsAtFailure absorbs reports [] result where
  sends _ h := by cases h
  ends before x after _ h := by simp at h

/-- An act may be put in front, if it is no exchange that fails. -/
theorem EndsAtFailure.cons_act {act : Act}
    (h : EndsAtFailure absorbs (fun before => reports (act :: before)) acts result)
    (hact : ∀ x, act = .exchange x → x.Passes absorbs) :
    EndsAtFailure absorbs reports (act :: acts) result where
  sends x hx := by
    rcases List.mem_cons.mp hx with heq | hx
    · exact (hact x heq.symm).sends
    · exact h.sends x hx
  ends before x after failure hacts hfailure habsorbs := by
    cases before with
    | nil =>
        cases hacts
        rw [(hact x rfl).absorbed failure hfailure] at habsorbs
        contradiction
    | cons first before =>
        cases hacts
        exact h.ends before x after failure rfl hfailure habsorbs

theorem EndsAtFailure.cons
    (h : EndsAtFailure absorbs (fun before => reports (.exchange x :: before)) acts result)
    (hx : x.Passes absorbs) : EndsAtFailure absorbs reports (.exchange x :: acts) result := by
  refine h.cons_act ?_
  rintro _ ⟨⟩
  exact hx

theorem EndsAtFailure.cons_pause {milliseconds : Nat}
    (h : EndsAtFailure absorbs (fun before => reports (.pause milliseconds :: before)) acts
      result) : EndsAtFailure absorbs reports (.pause milliseconds :: acts) result :=
  h.cons_act nofun

/-- An exchange that fails may be the only one. -/
theorem endsAtFailure_singleton {c : Command} {failure reported : Failure}
    (hx : x.Performs c (.error failure)) (hreports : reports [] failure reported) :
    EndsAtFailure absorbs reports [.exchange x] (.error reported : Except Failure α) where
  sends y hy := by
    cases List.mem_singleton.mp hy
    exact hx.sends
  ends before y after other hacts hother _ := by
    cases before with
    | nil =>
        cases hacts
        rw [hx.failure?_eq] at hother
        cases hother
        exact ⟨rfl, reported, rfl, hreports⟩
    | cons a before => simp at hacts

/-- Exchanges that all pass may be put in front. -/
theorem EndsAtFailure.append (h : EndsAtFailure absorbs unchanged acts result)
    (hxs : ∀ x ∈ xs, x.Passes absorbs) :
    EndsAtFailure absorbs unchanged (xs.map .exchange ++ acts) result := by
  induction xs with
  | nil => exact h
  | cons x xs ih =>
      exact (ih fun y hy => hxs y (List.mem_cons_of_mem x hy)).cons (hxs x List.mem_cons_self)

theorem endsAtFailure_of_passes (hxs : ∀ x ∈ xs, x.Passes absorbs) :
    EndsAtFailure absorbs unchanged (xs.map .exchange) result := by
  have hnil : EndsAtFailure absorbs unchanged [] result := endsAtFailure_nil
  simpa using hnil.append hxs

/-- Exchanges all pass when their result is a value, or a failure that is absorbed. -/
theorem EndsAtFailure.passes (h : EndsAtFailure absorbs unchanged (xs.map .exchange) result)
    (hresult : ∀ failure, result = .error failure → ∀ x ∈ xs, absorbs x failure = true) :
    ∀ x ∈ xs, x.Passes absorbs := by
  intro x hx
  refine ⟨h.sends x (List.mem_map_of_mem hx), fun failure hfailure => ?_⟩
  obtain ⟨before, after, rfl⟩ := List.append_of_mem hx
  cases habsorbs : absorbs x failure with
  | true => rfl
  | false =>
      rw [List.map_append, List.map_cons] at h
      obtain ⟨-, reported, hreported, rfl⟩ := h.ends _ x _ failure rfl hfailure habsorbs
      rw [hresult _ hreported x hx] at habsorbs
      contradiction

/-- A run with a value met no such failure. -/
theorem EndsAtFailure.of_ok {a : α}
    (h : EndsAtFailure absorbs reports acts (.ok a : Except Failure α))
    (result : Except Failure β) : EndsAtFailure absorbs reports acts result where
  sends := h.sends
  ends before x after failure hacts hfailure habsorbs := by
    obtain ⟨-, reported, hreported, -⟩ := h.ends before x after failure hacts hfailure habsorbs
    cases hreported

/-- What a failure is the lack of does not matter. -/
theorem EndsAtFailure.of_error {failure : Failure}
    (h : EndsAtFailure absorbs reports acts (.error failure : Except Failure α)) :
    EndsAtFailure absorbs reports acts (.error failure : Except Failure β) where
  sends := h.sends
  ends before x after other hacts hother habsorbs := by
    obtain ⟨hafter, reported, hreported, hreports⟩ :=
      h.ends before x after other hacts hother habsorbs
    cases hreported
    exact ⟨hafter, failure, rfl, hreports⟩

theorem EndsAtFailure.map (f : α → β) (h : EndsAtFailure absorbs reports acts result) :
    EndsAtFailure absorbs reports acts (result.map f) where
  sends := h.sends
  ends before x after failure hacts hfailure habsorbs := by
    obtain ⟨hafter, reported, rfl, hreports⟩ :=
      h.ends before x after failure hacts hfailure habsorbs
    exact ⟨hafter, reported, rfl, hreports⟩

end

/-! ## Walks -/

namespace Sel

/-- A read that loses its reservation. -/
def lostRead (x : Exchange) (failure : Failure) : Bool := isRead x && failure.isReservationCancelled

section

variable {absorbs : Exchange → Failure → Bool} {reservation : Reservation} {id : RecordId}
variable {xs : List Exchange}

theorem Completion.endsAtFailure {data : List UInt8} {result : Except Failure (List UInt8)}
    (h : Completion reservation id data xs result) :
    EndsAtFailure absorbs unchanged (xs.map .exchange) result := by
  induction h with
  | complete => exact endsAtFailure_nil
  | failed _ hx => exact endsAtFailure_singleton hx rfl
  | stuck _ hx => exact endsAtFailure_nil.cons hx.passes_of_ok
  | more _ hx _ _ ih => exact ih.cons hx.passes_of_ok

theorem Fetched.endsAtFailure {result : Except Failure (RecordId × List UInt8)}
    (h : Fetched reservation id xs result) :
    EndsAtFailure absorbs unchanged (xs.map .exchange) result := by
  cases h with
  | failed hx => exact endsAtFailure_singleton hx rfl
  | read hx rest => exact (rest.endsAtFailure.map _).cons hx.passes_of_ok

/-- The exchanges of a fetch pass when it succeeds. -/
theorem Fetched.passes_of_ok {found : RecordId × List UInt8}
    (h : Fetched reservation id xs (.ok found)) : ∀ x ∈ xs, x.Passes absorbs :=
  h.endsAtFailure.passes nofun

/-- They pass when the reservation was lost. -/
theorem Fetched.passes_of_lost {failure : Failure} (h : Fetched reservation id xs (.error failure))
    (hcancel : failure.isReservationCancelled = true) : ∀ x ∈ xs, x.Passes lostRead := by
  refine h.endsAtFailure.passes ?_
  rintro _ ⟨⟩ x hx
  rw [lostRead, h.isRead x hx, hcancel, Bool.and_self]

end

namespace Walk

variable {w w' : Walk} {xs ys : List Exchange}

theorem Reserved.passes {absorbs : Exchange → Failure → Bool} {reservation : Reservation}
    (h : Reserved w xs reservation) : ∀ x ∈ xs, x.Passes absorbs := by
  cases h with
  | held => simp
  | made _ hx =>
      intro y hy
      rw [List.mem_singleton.mp hy]
      exact hx.passes_of_ok

/-- The exchanges of a turn that goes on all pass. -/
theorem Turned.passes (h : Turned w ys (.ok w')) : ∀ y ∈ ys, y.Passes lostRead := by
  cases h with
  | accepted hls hxs =>
      exact List.forall_mem_append.mpr ⟨hls.passes, hxs.passes_of_ok⟩
  | lost hls hxs hcancel =>
      exact List.forall_mem_append.mpr ⟨hls.passes, hxs.passes_of_lost hcancel⟩

/-- A turn that fails ends at its first failure. -/
theorem Turned.endsAtFailure {failure : Failure} (h : Turned w ys (.error failure)) :
    EndsAtFailure lostRead unchanged (ys.map .exchange) (.error failure : Except Failure α) := by
  cases h with
  | unreserved _ hx => exact endsAtFailure_singleton hx rfl
  | refused hls hxs =>
      exact endsAtFailure_of_passes (List.forall_mem_append.mpr ⟨hls.passes, hxs.passes_of_ok⟩)
  | spent hls hxs hcancel =>
      exact endsAtFailure_of_passes
        (List.forall_mem_append.mpr ⟨hls.passes, hxs.passes_of_lost hcancel⟩)
  | failed hls hxs =>
      rw [List.map_append]
      exact hxs.endsAtFailure.of_error.append hls.passes

theorem Walked.passes (h : Walked w xs w') : ∀ x ∈ xs, x.Passes lostRead := by
  induction h with
  | start => simp
  | turn _ _ hturn ih => exact List.forall_mem_append.mpr ⟨ih, hturn.passes⟩

theorem Finished.endsAtFailure {result : Except Failure (List Record)} (h : Finished w xs result) :
    EndsAtFailure lostRead unchanged (xs.map .exchange) result := by
  cases h with
  | arrived hwalked => exact endsAtFailure_of_passes hwalked.passes
  | failed hwalked _ hturn =>
      rw [List.map_append]
      exact hturn.endsAtFailure.append hwalked.passes

end Walk

/-! ## Walks do not wait -/

theorem unpaused_completeRecord (reservation : Reservation) (id : RecordId) (data : List UInt8) :
    (completeRecord reservation id data).Unpaused := by
  by_cases hsize : data.length < Record.size
  · rw [completeRecord_of_lt_size hsize]
    refine (Command.unpaused_perform _).andThen fun entry => ?_
    by_cases hempty : entry.data.length = 0
    · rw [if_pos hempty]
      trivial
    · rw [if_neg hempty]
      exact unpaused_completeRecord reservation id (data ++ entry.data)
  · rw [completeRecord_of_size_le (by omega)]
    trivial
termination_by Record.size - data.length
decreasing_by
  rw [List.length_append]
  omega

theorem unpaused_fetch (reservation : Reservation) (id : RecordId) :
    (fetch reservation id).Unpaused :=
  (Command.unpaused_perform _).andThen fun _ =>
    (unpaused_completeRecord reservation id _).andThen fun _ => trivial

namespace Walk

theorem unpaused_reserve (w : Walk) : w.reserve.Unpaused := by
  unfold reserve
  split
  · trivial
  · exact Command.unpaused_perform _

/-- A walk waits nowhere. -/
theorem unpaused_finish (w : Walk) : w.finish.Unpaused := by
  rw [finish]
  by_cases hdone : w.done = true
  · rw [dif_pos hdone]
    trivial
  · rw [dif_neg hdone]
    refine w.unpaused_reserve.andThen fun reservation =>
      (unpaused_fetch _ _).handle fun fetched => ?_
    cases fetched with
    | ok found =>
        dsimp only
        split
        · trivial
        · next w' haccept =>
          have hlt := pending_lt_of_accept_eq_ok (w := w.reserved reservation)
            (Bool.eq_false_iff.mpr hdone) haccept
          exact unpaused_finish w'
    | error failure =>
        dsimp only
        split
        · split
          · trivial
          · next w' hlose =>
            have hlt := lose_eq_ok hlose
            exact unpaused_finish w'
        · trivial
termination_by (w.pending, w.maxRecoveries - w.recoveries)
decreasing_by
  · rw [hlt.1]
    exact Prod.Lex.right _ hlt.2
  · exact Prod.Lex.left _ _ hlt

/-- A walk ends at the first failure that is not a lost reservation. -/
theorem endsAtFailure_finish (w : Walk) (t : Transport σ) (s : σ) :
    EndsAtFailure lostRead unchanged (w.finish.run t s).acts (w.finish.run t s).result := by
  rw [w.unpaused_finish.acts_run]
  exact (w.finished_run t s).endsAtFailure

end Walk

/-! ## Windows -/

/-- A window whose end is known is read by a walk, unless it is empty. -/
theorem endsAtFailure_readWindow (total offset count maxRecoveries : Nat) (t : Transport σ)
    (s : σ) :
    let r := (readWindow total offset count maxRecoveries).run t s
    EndsAtFailure lostRead unchanged r.acts r.result := by
  intro r
  by_cases hempty : count = 0 ∨ total ≤ offset
  · have hr : r = ⟨.ok [], [], s⟩ := by
      simp only [r, readWindow_of_empty hempty, Dialogue.run_pure]
    rw [hr]
    exact endsAtFailure_nil
  · let w := (Walk.start .first maxRecoveries).withLimit (windowEnd total offset count)
    have hr : r = (w.finish.andThen fun records =>
        pure ((records.drop offset).take count)).run t s := by
      simp only [r, readWindow, if_neg hempty]
      rfl
    rw [hr, Dialogue.run_andThen_pure]
    exact (w.endsAtFailure_finish t s).map _

theorem endsAtFailure_readFrom (offset : Nat → Nat) (count maxRecoveries : Nat)
    (t : Transport σ) (s : σ) :
    let r := (readFrom offset count maxRecoveries).run t s
    EndsAtFailure lostRead unchanged r.acts r.result := by
  intro r
  obtain ⟨x, result, s', hx, hacts, hresult⟩ :=
    Command.exists_performs_handle_acts .getSelInfo _ t s
  simp only [r]
  rw [readFrom, Dialogue.andThen, hacts, hresult]
  cases result with
  | error failure => exact endsAtFailure_singleton hx rfl
  | ok info =>
      dsimp only
      rw [Dialogue.run_andThen_pure]
      exact ((endsAtFailure_readWindow _ _ _ _ t s').map _).cons hx.passes_of_ok

/-! ## Erasures -/

/-- A look that loses its reservation. -/
def lostLook (x : Exchange) (failure : Failure) : Bool := isLook x && failure.isReservationCancelled

theorem Erased.endsAtFailure {e : Erasure} {reservation : Reservation} {acts : List Act}
    {result : Except Failure Unit} (h : Erased e reservation acts result) :
    EndsAtFailure lostLook unchanged acts result := by
  induction h with
  | completed hx => exact endsAtFailure_nil.cons hx.passes_of_ok
  | exhausted hx => exact endsAtFailure_nil.cons hx.passes_of_ok
  | waited hx _ _ ih => exact ih.cons_pause.cons hx.passes_of_ok
  | spent hx => exact endsAtFailure_singleton hx rfl
  | unreserved hx hcancel _ hy =>
      refine (endsAtFailure_singleton hy rfl).cons (hx.passes_of_error ?_)
      rw [lostLook, isLook_of_performs hx, hcancel, Bool.and_self]
  | reserved hx hcancel _ hy _ ih =>
      refine (ih.cons hy.passes_of_ok).cons (hx.passes_of_error ?_)
      rw [lostLook, isLook_of_performs hx, hcancel, Bool.and_self]
  | failed hx => exact endsAtFailure_singleton hx rfl

theorem Cleared.endsAtFailure {interval maxPolls : Nat} {acts : List Act}
    {result : Except Failure Unit} (h : Cleared interval maxPolls acts result) :
    EndsAtFailure lostLook unchanged acts result := by
  cases h with
  | unreserved hy => exact endsAtFailure_singleton hy rfl
  | reserved hy rest => exact rest.endsAtFailure.cons hy.passes_of_ok

end Sel

/-! ## Inventories -/

namespace Fru

variable {absorbs : Exchange → Failure → Bool} {device lun : UInt8} {xs : List Exchange}

theorem Collected.endsAtFailure {a : Assembly} {result : Except Failure (List UInt8)}
    (h : Collected device lun a xs result) :
    EndsAtFailure absorbs (wrappedAfter 0) (xs.map .exchange) result := by
  induction h with
  | complete => exact endsAtFailure_nil
  | failed _ hx => exact endsAtFailure_singleton hx ⟨_, _, rfl⟩
  | stuck _ hx => exact endsAtFailure_nil.cons hx.passes_of_ok
  | more _ hx _ _ ih => exact EndsAtFailure.cons ih hx.passes_of_ok

/-- The size and the header come first, and only what comes after them is a chunk. -/
theorem Retrieved.endsAtFailure {chunk : UInt8} {result : Except Failure Device}
    (h : Retrieved device lun chunk xs result) :
    EndsAtFailure absorbs (wrappedAfter 2) (xs.map .exchange) result := by
  have hchunks {x y : Exchange} {ys : List Exchange} {extent : Extent} {header : Chunk}
      (hx : x.Performs (.getFruInventoryAreaInfo device lun) (.ok extent))
      (hy : y.Performs (.readFruData (headerRead device lun)) (.ok header))
      (hys : EndsAtFailure absorbs (wrappedAfter 0) (ys.map .exchange) result) :
      EndsAtFailure absorbs (wrappedAfter 2) ((x :: y :: ys).map .exchange) result := by
    refine EndsAtFailure.cons (EndsAtFailure.cons ?_ hy.passes_of_ok) hx.passes_of_ok
    simp only [wrappedAfter_succ_cons]
    exact hys
  cases h with
  | unsized hx => exact endsAtFailure_singleton hx rfl
  | headless hx hy => exact (endsAtFailure_singleton hy rfl).cons hx.passes_of_ok
  | refused hx hy => exact hchunks hx hy endsAtFailure_nil
  | broken hx hy _ hxs => exact hchunks hx hy hxs.endsAtFailure.of_error
  | collected hx hy _ hxs => exact hchunks hx hy (hxs.endsAtFailure.of_ok _)

theorem Assembly.unpaused_finish (a : Assembly) : (a.finish device lun).Unpaused := by
  by_cases hmissing : 0 < a.missing
  · rw [finish_of_missing hmissing]
    refine (Command.unpaused_perform _).handle fun result => ?_
    cases result with
    | error failure => trivial
    | ok chunk =>
        dsimp only
        by_cases hempty : chunk.data = []
        · rw [if_pos hempty]
          trivial
        · rw [if_neg hempty]
          have hlt := missing_extend_lt hmissing hempty
          exact (a.extend chunk.data).unpaused_finish
  · rw [finish_of_complete (Nat.eq_zero_of_not_pos hmissing)]
    trivial
termination_by a.missing

theorem unpaused_liftFault {α : Type} (result : Except Fault α) : (liftFault result).Unpaused :=
  trivial

/-- A reading waits nowhere. -/
theorem unpaused_readDevice (device lun chunk : UInt8) : (readDevice device lun chunk).Unpaused :=
  (Command.unpaused_perform _).andThen fun _ =>
    (Command.unpaused_perform _).andThen fun _ =>
      (unpaused_liftFault _).andThen fun a =>
        a.unpaused_finish.andThen fun _ => unpaused_liftFault _

theorem endsAtFailure_readDevice (device lun chunk : UInt8) (t : Transport σ) (s : σ) :
    let r := (readDevice device lun chunk).run t s
    EndsAtFailure absorbs (wrappedAfter 2) r.acts r.result := by
  intro r
  rw [(unpaused_readDevice device lun chunk).acts_run]
  exact (retrieved_run device lun chunk t s).endsAtFailure

end Fru

/-! ## Whole runs -/

/-- The loss of a reservation is absorbed only where the log is read or looked at, and
never where it is reserved. -/
theorem Sel.not_lost_of_isReserve {x : Exchange} (hx : Sel.isReserve x = true)
    (failure : Failure) : Sel.lostRead x failure = false ∧ Sel.lostLook x failure = false := by
  have hread : Sel.isRead x = false := by
    rw [Sel.isRead, of_decide_eq_true hx, Sel.EntryRead.ofRequest?_reserveSel]
    rfl
  have hlook : Sel.isLook x = false := by
    rw [Sel.isLook, of_decide_eq_true hx]
    rfl
  rw [Sel.lostRead, Sel.lostLook, hread, hlook]
  exact ⟨rfl, rfl⟩

/-- A walk through the log from anywhere, a window of it, its erasure and the reading of
an inventory end at the first exchange that fails: nothing is sent after it, nothing is
waited for, and its failure is the result.  A walk and a window absorb only reads that
lose their reservation, an erasure absorbs only looks that do, and a reading absorbs
nothing; it wraps the failure of a chunk, which is any exchange after the first two. -/
theorem run_endsAtFailure (t : Transport σ) (s : σ) :
    (∀ w : Sel.Walk, let r := w.finish.run t s
      EndsAtFailure Sel.lostRead unchanged r.acts r.result) ∧
    (∀ offset count maxRecoveries, let r := (Sel.readWindowOf offset count maxRecoveries).run t s
      EndsAtFailure Sel.lostRead unchanged r.acts r.result) ∧
    (∀ interval maxPolls, let r := (Sel.clearLog interval maxPolls).run t s
      EndsAtFailure Sel.lostLook unchanged r.acts r.result) ∧
    (∀ device lun chunk, let r := (Fru.readDevice device lun chunk).run t s
      EndsAtFailure (fun _ _ => false) (wrappedAfter 2) r.acts r.result) ∧
    ∀ x failure, Sel.isReserve x = true →
      Sel.lostRead x failure = false ∧ Sel.lostLook x failure = false :=
  ⟨fun w => w.endsAtFailure_finish t s,
    fun offset count maxRecoveries =>
      Sel.endsAtFailure_readFrom (fun _ => offset) count maxRecoveries t s,
    fun interval maxPolls => (Sel.cleared_run interval maxPolls t s).endsAtFailure,
    fun device lun chunk => Fru.endsAtFailure_readDevice device lun chunk t s,
    fun _ failure hx => Sel.not_lost_of_isReserve hx failure⟩

end Baseboard
