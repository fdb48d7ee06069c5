import Baseboard.Proofs.Sel.Look
import Mathlib.Data.List.Induction

/-!
# Baseboard.Proofs.Sel.Order

The order in which an erasure sends its commands, whatever the controller replies.

An erasure is started until a start is answered with progress, and from then on only
asked how far it is.  Every command carries the reservation that was granted last, and
after a reservation is lost the next request is for a new one.

`Due` says of one exchange that it may come after the exchanges before it, and
`Underway` is the invariant that makes the next one due.  Main statement:
`clearLog_inOrder`.
-/

namespace Baseboard.Sel

/-! ## Each exchange after those before it -/

/-- Whether every exchange stands as it should to the exchanges before it. -/
def Throughout (p : List Exchange → Exchange → Prop) (xs : List Exchange) : Prop :=
  ∀ before x, before ++ [x] <+: xs → p before x

theorem throughout_nil (p : List Exchange → Exchange → Prop) : Throughout p [] := by
  intro before x h
  simp at h

theorem throughout_concat {p : List Exchange → Exchange → Prop} {xs : List Exchange}
    {x : Exchange} : Throughout p (xs ++ [x]) ↔ Throughout p xs ∧ p xs x := by
  constructor
  · intro h
    exact ⟨fun before y hy => h before y (hy.trans (List.prefix_append xs [x])),
      h xs x (List.prefix_refl _)⟩
  · rintro ⟨hxs, hx⟩ before y hy
    rcases List.prefix_concat_iff.mp hy with heq | hprefix
    · obtain ⟨rfl, hxy⟩ := List.append_inj' heq rfl
      rw [List.singleton_inj.mp hxy]
      exact hx
    · exact hxs before y hprefix

theorem Throughout.imp {p q : List Exchange → Exchange → Prop} {xs : List Exchange}
    (h : Throughout p xs) (himp : ∀ before x, p before x → q before x) : Throughout q xs :=
  fun before x hx => himp before x (h before x hx)

/-! ## Starts and polls -/

/-- What a look asks for; `none` for an exchange that is no look. -/
def action? (x : Exchange) : Option EraseAction :=
  (EraseCommand.ofRequest? x.request).map (·.action)

/-- Whether an exchange is a look that was answered with progress. -/
def Reports (x : Exchange) : Prop :=
  ∃ progress, EraseReply.ofReply? x.reply = some (.reported progress)

/-- The reservation that the last request for one was granted. -/
def inForce (xs : List Exchange) : Option Reservation :=
  (xs.filter isReserve).getLast?.bind fun y => granted? y.reply

/-- Whether an exchange may come after those before it. -/
structure Due (before : List Exchange) (x : Exchange) : Prop where
  /-- A start comes only after starts that lost their reservation. -/
  start : action? x = some .initiate →
    ∀ y ∈ looks before, action? y = some .initiate ∧ losesReservation y.reply = true
  /-- A poll comes only after a start that was answered with progress. -/
  poll : action? x = some .status → ∃ y ∈ before, action? y = some .initiate ∧ Reports y
  /-- A look is made under the reservation in force. -/
  token : isLook x = true → ∃ command, EraseCommand.ofRequest? x.request = some command ∧
    inForce before = some command.reservation
  /-- A reservation that is lost is asked for again. -/
  renewed : ∀ y, before.getLast? = some y → isLook y = true →
    losesReservation y.reply = true → isReserve x = true

/-- Whether looks are starts and then polls, where every start but the last lost its
reservation. -/
def Phased (ls : List Exchange) : Prop :=
  ∃ starts polls, ls = starts ++ polls ∧
    (∀ x ∈ starts, action? x = some .initiate) ∧
    (∀ x ∈ polls, action? x = some .status) ∧
    ∀ x ∈ starts.dropLast, losesReservation x.reply = true

/-- The order of the exchanges of an erasure with a budget of looks. -/
structure InOrder (budget : Nat) (xs : List Exchange) : Prop where
  phased : Phased (looks xs)
  /-- There is no start after one that was answered with progress. -/
  started_once : Throughout (fun before x => action? x = some .initiate →
    ∀ y ∈ before, action? y = some .initiate → ¬Reports y) xs
  /-- There is no poll before a start was answered with progress. -/
  polled_after : Throughout (fun before x => action? x = some .status →
    ∃ y ∈ before, action? y = some .initiate ∧ Reports y) xs
  /-- Every look carries the token of the most recent reservation. -/
  token_inForce : Throughout (fun before x => isLook x = true →
    ∃ command, EraseCommand.ofRequest? x.request = some command ∧
      inForce before = some command.reservation) xs
  /-- After a look that lost its reservation the log is reserved, before anything
  else. -/
  reserved_after : Throughout (fun before x => ∀ y, before.getLast? = some y →
    isLook y = true → losesReservation y.reply = true → isReserve x = true) xs
  /-- Such a look is the end only if it spent the budget. -/
  spent : ∀ x, xs.getLast? = some x → isLook x = true → losesReservation x.reply = true →
    (looks xs).length = budget

/-! ## Looks and reservations at the end -/

theorem action?_of_performs {x : Exchange} {reservation : Reservation} {action : EraseAction}
    {result : Except Failure EraseProgress}
    (hx : x.Performs (.clearSel reservation action) result) : action? x = some action := by
  rw [action?, hx.request_eq, EraseCommand.ofRequest?_request]
  rfl

theorem isLook_of_action? {x : Exchange} {action : EraseAction} (hx : action? x = some action) :
    isLook x = true := by
  obtain ⟨command, hcommand, -⟩ := Option.map_eq_some_iff.mp hx
  exact isLook_of_ofRequest? hcommand

theorem looks_concat (xs : List Exchange) (x : Exchange) :
    looks (xs ++ [x]) = looks xs ++ looks [x] := List.filter_append xs [x]

/-- A look leaves the reservation in force. -/
theorem inForce_concat_look {xs : List Exchange} {x : Exchange} (hx : isLook x = true) :
    inForce (xs ++ [x]) = inForce xs := by
  rw [inForce, List.filter_append, List.filter_cons_of_neg (by simp [isReserve_of_isLook hx]),
    List.filter_nil, List.append_nil, inForce]

/-- A reservation that is granted is the one in force. -/
theorem inForce_concat_reserve (xs : List Exchange) {y : Exchange} {reservation : Reservation}
    (hy : y.Performs .reserveSel (.ok reservation)) :
    inForce (xs ++ [y]) = some reservation := by
  rw [inForce, List.filter_append, List.filter_cons_of_pos (isReserve_of_performs hy),
    List.filter_nil, List.getLast?_concat, Option.bind_some, granted?_of_performs hy]
  rfl

theorem isLook_of_getLast?_reserve (xs : List Exchange) {y z : Exchange}
    {result : Except Failure Reservation} (hy : y.Performs .reserveSel result)
    (hlast : (xs ++ [y]).getLast? = some z) : isLook z = false := by
  rw [List.getLast?_concat] at hlast
  rw [← Option.some.inj hlast]
  exact isLook_of_reserves hy

/-- A request for a reservation is always due. -/
theorem due_reserve {before : List Exchange} {y : Exchange} {result : Except Failure Reservation}
    (hy : y.Performs .reserveSel result) : Due before y := by
  have hnone : EraseCommand.ofRequest? y.request = none := by
    rw [hy.request_eq, EraseCommand.ofRequest?_reserveSel]
  refine ⟨?_, ?_, ?_, fun _ _ _ _ => isReserve_of_performs hy⟩
  · simp [action?, hnone]
  · simp [action?, hnone]
  · simp [isLook_of_reserves hy]

/-! ## Erasures under way -/

/-- An erasure under way, after these exchanges. -/
structure Underway (e : Erasure) (reservation : Reservation) (xs : List Exchange) : Prop where
  due : Throughout Due xs
  inForce_eq : inForce xs = some reservation
  length_looks : (looks xs).length = e.polls
  left : e.polls < e.maxPolls
  /-- A loss of the reservation has been dealt with. -/
  settled : ∀ y, xs.getLast? = some y → isLook y = true → losesReservation y.reply = false
  stage : (e.phase = .idle ∧
      ∀ y ∈ looks xs, action? y = some .initiate ∧ losesReservation y.reply = true) ∨
    (e.phase = .inProgress ∧ ∃ y ∈ xs, action? y = some .initiate ∧ Reports y)

section

variable {e : Erasure} {reservation granted : Reservation} {xs : List Exchange}
variable {x y : Exchange}

/-- The next look is due. -/
theorem Underway.due_look {result : Except Failure EraseProgress}
    (h : Underway e reservation xs)
    (hx : x.Performs (.clearSel reservation e.nextAction) result) : Due xs x := by
  have haction := action?_of_performs hx
  refine ⟨fun hstart => ?_, fun hpoll => ?_, fun _ => ?_,
    fun z hlast hlook hlost => ?_⟩
  · rcases h.stage with ⟨-, hlooks⟩ | ⟨hphase, -⟩
    · exact hlooks
    · simp [haction, Erasure.nextAction, hphase] at hstart
  · rcases h.stage with ⟨hphase, -⟩ | ⟨-, hstarted⟩
    · simp [haction, Erasure.nextAction, hphase] at hpoll
    · exact hstarted
  · rw [hx.request_eq, EraseCommand.ofRequest?_request]
    exact ⟨_, rfl, h.inForce_eq⟩
  · rw [h.settled z hlast hlook] at hlost
    contradiction

/-- After a report of progress the erasure has been started. -/
theorem Underway.progressed (h : Underway e reservation xs)
    (hx : x.Performs (.clearSel reservation e.nextAction) (.ok .inProgress))
    (hleft : e.polls + 1 < e.maxPolls) : Underway e.progressed reservation (xs ++ [x]) where
  due := throughout_concat.mpr ⟨h.due, h.due_look hx⟩
  inForce_eq := by rw [inForce_concat_look (isLook_of_performs hx), h.inForce_eq]
  length_looks := by
    rw [looks_concat, looks_cons_look hx, List.length_append, h.length_looks]
    rfl
  left := hleft
  settled z hlast _ := by
    rw [List.getLast?_concat] at hlast
    rw [← Option.some.inj hlast]
    exact losesReservation_of_ok hx
  stage := by
    refine .inr ⟨rfl, ?_⟩
    rcases h.stage with ⟨hphase, -⟩ | ⟨-, z, hz, hstarted⟩
    · refine ⟨x, by simp, ?_, .inProgress, ofReply?_of_ok hx⟩
      rw [action?_of_performs hx, Erasure.nextAction, if_pos hphase]
    · exact ⟨z, by simp [hz], hstarted⟩

/-- After a loss and a new reservation the erasure stands where it stood. -/
theorem Underway.renewed {failure : Failure} (h : Underway e reservation xs)
    (hx : x.Performs (.clearSel reservation e.nextAction) (.error failure))
    (hcancel : failure.isReservationCancelled = true) (hleft : e.polls + 1 < e.maxPolls)
    (hy : y.Performs .reserveSel (.ok granted)) :
    Underway e.lost granted (xs ++ [x] ++ [y]) where
  due := throughout_concat.mpr
    ⟨throughout_concat.mpr ⟨h.due, h.due_look hx⟩, due_reserve hy⟩
  inForce_eq := inForce_concat_reserve (xs ++ [x]) hy
  length_looks := by
    rw [looks_concat, looks_cons_reserve hy, looks_concat, looks_cons_look hx,
      List.length_append, List.length_append, h.length_looks]
    rfl
  left := hleft
  settled z hlast hlook := by
    rw [isLook_of_getLast?_reserve (xs ++ [x]) hy hlast] at hlook
    contradiction
  stage := by
    rcases h.stage with ⟨hphase, hlooks⟩ | ⟨hphase, z, hz, hstarted⟩
    · refine .inl ⟨by simp [Erasure.lost, hphase], ?_⟩
      rw [looks_concat, looks_cons_reserve hy, looks_nil, List.append_nil, looks_concat,
        looks_cons_look hx, looks_nil]
      intro z hz
      rcases List.mem_append.mp hz with hz | hz
      · exact hlooks z hz
      · rw [List.mem_singleton.mp hz, losesReservation_of_error hx]
        refine ⟨?_, hcancel⟩
        rw [action?_of_performs hx, Erasure.nextAction, if_pos hphase]
    · exact .inr ⟨by simp [Erasure.lost, hphase], z, by simp [hz], hstarted⟩

/-! ## Erasures at their end -/

/-- Exchanges after which nothing more is sent: each was due, and a loss of the
reservation is the end only if it spent the budget. -/
structure Ended (budget : Nat) (xs : List Exchange) : Prop where
  due : Throughout Due xs
  spent : ∀ x, xs.getLast? = some x → isLook x = true → losesReservation x.reply = true →
    (looks xs).length = budget

/-- The last look of an erasure. -/
theorem Underway.ended_look {result : Except Failure EraseProgress}
    (h : Underway e reservation xs)
    (hx : x.Performs (.clearSel reservation e.nextAction) result)
    (hspent : losesReservation x.reply = true → e.maxPolls ≤ e.polls + 1) :
    Ended e.maxPolls (xs ++ [x]) where
  due := throughout_concat.mpr ⟨h.due, h.due_look hx⟩
  spent z hlast _ hlost := by
    rw [List.getLast?_concat] at hlast
    rw [← Option.some.inj hlast] at hlost
    have hleft := h.left
    have hbudget := hspent hlost
    rw [looks_concat, looks_cons_look hx, List.length_append, h.length_looks, looks_nil,
      List.length_singleton]
    omega

/-- A look after which no reservation could be had. -/
theorem Underway.ended_unreserved {failure refusal : Failure}
    (h : Underway e reservation xs)
    (hx : x.Performs (.clearSel reservation e.nextAction) (.error failure))
    (hy : y.Performs .reserveSel (.error refusal)) :
    Ended e.maxPolls (xs ++ [x] ++ [y]) where
  due := throughout_concat.mpr
    ⟨throughout_concat.mpr ⟨h.due, h.due_look hx⟩, due_reserve hy⟩
  spent z hlast hlook _ := by
    rw [isLook_of_getLast?_reserve (xs ++ [x]) hy hlast] at hlook
    contradiction

/-- An erasure that is under way comes to an end in order. -/
theorem Erased.ended {acts : List Act} {result : Except Failure Unit}
    (h : Erased e reservation acts result) (hxs : Underway e reservation xs) :
    Ended e.maxPolls (xs ++ Act.exchanges acts) := by
  induction h generalizing xs with
  | completed hx =>
      refine hxs.ended_look hx fun hlost => ?_
      rw [losesReservation_of_ok hx] at hlost
      contradiction
  | exhausted hx hspent => exact hxs.ended_look hx fun _ => hspent
  | waited hx hnext _ ih =>
      rw [Act.exchanges_cons_exchange, Act.exchanges_cons_pause, List.append_cons]
      exact ih (hxs.progressed hx hnext)
  | spent hx _ hspent => exact hxs.ended_look hx fun _ => hspent
  | unreserved hx _ _ hy =>
      rw [Act.exchanges_cons_exchange, List.append_cons]
      exact hxs.ended_unreserved hx hy
  | reserved hx hcancel hnext hy _ ih =>
      rw [Act.exchanges_cons_exchange, Act.exchanges_cons_exchange, List.append_cons,
        List.append_cons]
      exact ih (hxs.renewed hx hcancel hnext hy)
  | failed hx hcancel =>
      refine hxs.ended_look hx fun hlost => ?_
      rw [losesReservation_of_error hx, hcancel] at hlost
      contradiction

end

/-! ## Clearing the log -/

theorem throughout_due_singleton {y : Exchange} {result : Except Failure Reservation}
    (hy : y.Performs .reserveSel result) : Throughout Due [y] :=
  throughout_concat.mpr ⟨throughout_nil Due, due_reserve hy⟩

/-- An erasure is under way when the log was reserved for it. -/
theorem underway_start {interval maxPolls : Nat} {y : Exchange} {reservation : Reservation}
    (hy : y.Performs .reserveSel (.ok reservation)) :
    Underway (.start interval maxPolls) reservation [y] where
  due := throughout_due_singleton hy
  inForce_eq := inForce_concat_reserve [] hy
  length_looks := by rw [looks_cons_reserve hy]; rfl
  left := Nat.le_max_right maxPolls 1
  settled z hlast hlook := by
    rw [isLook_of_getLast?_reserve [] hy hlast] at hlook
    contradiction
  stage := .inl ⟨rfl, by simp [looks_cons_reserve hy]⟩

theorem Cleared.ended {interval maxPolls : Nat} {acts : List Act} {result : Except Failure Unit}
    (h : Cleared interval maxPolls acts result) :
    Ended (max maxPolls 1) (Act.exchanges acts) := by
  cases h with
  | @unreserved y _ hy =>
      refine ⟨throughout_due_singleton hy, fun z hlast hlook _ => ?_⟩
      rw [isLook_of_getLast?_reserve [] hy hlast] at hlook
      contradiction
  | reserved hy rest => exact rest.ended (underway_start hy)

/-- A start after starts that all lost their reservation. -/
theorem phased_concat_start {ls : List Exchange} {x : Exchange}
    (hx : action? x = some .initiate)
    (hls : ∀ y ∈ ls, action? y = some .initiate ∧ losesReservation y.reply = true) :
    Phased (ls ++ [x]) := by
  refine ⟨ls ++ [x], [], (List.append_nil _).symm, ?_, by simp, ?_⟩
  · exact List.forall_mem_append.mpr ⟨fun y hy => (hls y hy).1, by simpa using hx⟩
  · rw [List.dropLast_concat]
    exact fun y hy => (hls y hy).2

/-- A poll may come after any looks. -/
theorem Phased.concat_poll {ls : List Exchange} {x : Exchange} (h : Phased ls)
    (hx : action? x = some .status) : Phased (ls ++ [x]) := by
  obtain ⟨starts, polls, rfl, hstarts, hpolls, hlost⟩ := h
  refine ⟨starts, polls ++ [x], List.append_assoc starts polls [x], hstarts, ?_, hlost⟩
  exact List.forall_mem_append.mpr ⟨hpolls, by simpa using hx⟩

/-- Looks that are all due are starts and then polls. -/
theorem phased_of_due {xs : List Exchange} (h : Throughout Due xs) : Phased (looks xs) := by
  induction xs using List.reverseRecOn with
  | nil => exact ⟨[], [], rfl, by simp, by simp, by simp⟩
  | append_singleton xs x ih =>
      obtain ⟨hxs, hx⟩ := throughout_concat.mp h
      rw [looks_concat]
      cases hlook : isLook x with
      | true =>
          rw [looks_cons_of_isLook hlook, looks_nil]
          obtain ⟨⟨reservation, action⟩, hcommand, -⟩ := hx.token hlook
          have haction : action? x = some action := by rw [action?, hcommand, Option.map_some]
          cases action with
          | initiate => exact phased_concat_start haction (hx.start haction)
          | status => exact (ih hxs).concat_poll haction
      | false =>
          rw [looks_cons_of_not_isLook hlook, looks_nil, List.append_nil]
          exact ih hxs

/-- However the controller replies, clearing the log sends its commands in order. -/
theorem clearLog_inOrder {σ : Type} (interval maxPolls : Nat) (t : Transport σ) (s : σ) :
    InOrder (max maxPolls 1) ((clearLog interval maxPolls).run t s).exchanges := by
  have hended : Ended (max maxPolls 1) ((clearLog interval maxPolls).run t s).exchanges := by
    rw [Dialogue.Run.exchanges_eq]
    exact (cleared_run interval maxPolls t s).ended
  have hdue := hended.due
  exact {
    phased := phased_of_due hdue
    started_once := hdue.imp fun before x hx hstart y hy haction ⟨progress, hreport⟩ => by
      obtain ⟨-, hlost⟩ :=
        hx.start hstart y (List.mem_filter.mpr ⟨hy, isLook_of_action? haction⟩)
      rw [losesReservation_of_reported hreport] at hlost
      contradiction
    polled_after := hdue.imp fun _ _ hx => hx.poll
    token_inForce := hdue.imp fun _ _ hx => hx.token
    reserved_after := hdue.imp fun _ _ hx => hx.renewed
    spent := hended.spent }

end Baseboard.Sel
