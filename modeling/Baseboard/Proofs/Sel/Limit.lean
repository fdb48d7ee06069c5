import Baseboard.Proofs.Sel.Window

/-!
# Baseboard.Proofs.Sel.Limit

A walk with a limit next to the same walk without one, whatever the controller replies.
The walk with the limit does what the other does, until it has as many records as the
limit says, and then stops.

`Walk.atEnd` is the walk as it stands when its run ends, be it in success or in failure;
its records are those that the run accepted.  A limit does not change what a turn does
(`Walk.turn_capped`), only after which turn the walk is done, so that a run with a limit is
the run without it cut short (`Walk.cutShort_run`).  A window is read by such a run, and is
a block of the records that the walk without a limit accepts.

Main statement: `Walk.cutShort_and_windowed`.
-/

namespace Baseboard.Sel

variable {σ : Type}

namespace Walk

variable {w w' : Walk} {xs ys : List Exchange} {t : Transport σ} {s : σ} {k : Nat}

/-! ## The end of a run -/

/-- The walk as it stands when its run ends. -/
def atEnd (t : Transport σ) (w : Walk) (s : σ) : Walk :=
  if hdone : w.done = true then w
  else
    match hturn : (w.turn.run t s).result with
    | .error _ => w
    | .ok w' =>
      have := Turned.lex_lt (Bool.eq_false_iff.mpr hdone) (hturn ▸ w.turned_run t s)
      w'.atEnd t (w.turn.run t s).state
termination_by (w.pending, w.maxRecoveries - w.recoveries)
decreasing_by
  exact this

/-- A walk ended well, or in a turn that failed. -/
inductive EndedAt (w w' : Walk) : List Exchange → Except Failure (List Record) → Prop where
  | arrived {xs : List Exchange} (hwalked : Walked w xs w') (hdone : w'.done = true) :
      EndedAt w w' xs (.ok w'.records)
  | failed {xs ys : List Exchange} {failure : Failure} (hwalked : Walked w xs w')
      (hdone : w'.done = false) (hturn : Turned w' ys (.error failure)) :
      EndedAt w w' (xs ++ ys) (.error failure)

theorem EndedAt.cons {w'' : Walk} {result : Except Failure (List Record)} (hdone : w.done = false)
    (hturn : Turned w xs (.ok w')) (h : EndedAt w' w'' ys result) :
    EndedAt w w'' (xs ++ ys) result := by
  cases h with
  | arrived hwalked hdone' => exact .arrived (.cons hdone hturn hwalked) hdone'
  | failed hwalked hdone' hturn' =>
      rw [← List.append_assoc]
      exact .failed (.cons hdone hturn hwalked) hdone' hturn'

/-- The records that a run returns are those of the walk at its end. -/
theorem EndedAt.eq_records {records : List Record} (h : EndedAt w w' xs (.ok records)) :
    records = w'.records := by
  cases h with
  | arrived => rfl

theorem run_finish_of_done (hdone : w.done = true) (t : Transport σ) (s : σ) :
    w.finish.run t s = ⟨.ok w.records, [], s⟩ := by
  rw [finish_eq, if_pos hdone, Dialogue.run_pure]

/-- A turn that fails is the end of a walk. -/
theorem run_finish_of_turn_error {failure : Failure} (hdone : w.done = false)
    (hturn : (w.turn.run t s).result = .error failure) :
    w.finish.run t s =
      ⟨.error failure, (w.turn.run t s).events, (w.turn.run t s).state⟩ := by
  rw [finish_eq, hdone, if_neg Bool.false_ne_true, Dialogue.run_andThen_of_error _ hturn]

/-- Every run ends at the walk that `atEnd` says. -/
theorem endedAt_run (t : Transport σ) (w : Walk) (s : σ) :
    EndedAt w (w.atEnd t s) (w.finish.run t s).exchanges (w.finish.run t s).result := by
  fun_induction atEnd t w s with
  | case1 w s hdone =>
      rw [run_finish_of_done hdone]
      exact .arrived .start hdone
  | case2 w s hdone failure hturn =>
      rw [Bool.not_eq_true] at hdone
      rw [run_finish_of_turn_error hdone hturn]
      exact .failed .start hdone (hturn ▸ w.turned_run t s)
  | case3 w s hdone w' hturn _ ih =>
      rw [Bool.not_eq_true] at hdone
      rw [run_finish_of_turn hdone hturn, Dialogue.Run.exchanges_preceded]
      exact ih.cons hdone (hturn ▸ w.turned_run t s)

/-- A turn keeps the records that were accepted. -/
theorem Turned.records_isPrefix (h : Turned w xs (.ok w')) : w.records <+: w'.records := by
  cases h with
  | accepted => exact List.prefix_append _ _
  | lost => exact List.prefix_rfl

/-- A turn accepts one record at most. -/
theorem Turned.length_records_le (h : Turned w xs (.ok w')) :
    w'.records.length ≤ w.records.length + 1 := by
  cases h with
  | accepted => exact Nat.le_of_eq (List.length_append ..)
  | lost => exact Nat.le_succ _

/-- A run keeps the records that were accepted before it. -/
theorem records_isPrefix_atEnd (t : Transport σ) (w : Walk) (s : σ) :
    w.records <+: (w.atEnd t s).records := by
  fun_induction atEnd t w s with
  | case1 => exact List.prefix_rfl
  | case2 => exact List.prefix_rfl
  | case3 w s hdone w' hturn _ ih =>
      have hturned := w.turned_run t s
      rw [hturn] at hturned
      exact hturned.records_isPrefix.trans ih

/-! ## Walks with a limit -/

/-- The walk that stops when it has `k` records, however it came to be. -/
def capped (k : Nat) (w : Walk) : Walk :=
  { w with limit := some k, done := w.done || decide (k ≤ w.records.length) }

theorem withLimit_start (start : RecordId) (maxRecoveries k : Nat) :
    (Walk.start start maxRecoveries).withLimit k = (Walk.start start maxRecoveries).capped k := by
  simp [withLimit, capped, Walk.start]

theorem moveOn_capped (hlimit : w.limit = none) (record : Record) (next : RecordId) :
    (w.capped k).moveOn record next = (w.moveOn record next).capped k := by
  simp only [moveOn, capped, reachesLimit, hlimit, Option.any_none, Option.any_some,
    Bool.or_false, List.length_append, List.length_singleton]
  rfl

theorem lose_capped (w : Walk) (failure : Failure) :
    (w.capped k).lose failure = (w.lose failure).map (capped k) := by
  by_cases hbudget : w.recoveries < w.maxRecoveries
  · have hbudget' : (w.capped k).recoveries < (w.capped k).maxRecoveries := hbudget
    rw [lose, lose, if_pos hbudget, if_pos hbudget']
    rfl
  · have hbudget' : ¬ (w.capped k).recoveries < (w.capped k).maxRecoveries := hbudget
    rw [lose, lose, if_neg hbudget, if_neg hbudget']
    rfl

/-- A limit does not change what a walk makes of a fetch. -/
theorem settle_capped (hlimit : w.limit = none)
    (fetched : Except Failure (RecordId × List UInt8)) :
    (w.capped k).settle fetched = (w.settle fetched).map (capped k) := by
  cases fetched with
  | ok found =>
      obtain ⟨next, data⟩ := found
      simp only [settle, accept]
      cases Record.decode data with
      | error failure => rfl
      | ok record =>
          have hmeet : (w.capped k).meet record = (w.meet record).capped k := rfl
          by_cases hback : (w.meet record).LeadsBack next
          · have hback' : ((w.capped k).meet record).LeadsBack next := hback
            simp only [if_pos hback, if_pos hback', Except.map]
          · have hback' : ¬ ((w.capped k).meet record).LeadsBack next := hback
            simp only [if_neg hback, if_neg hback', Except.map]
            rw [hmeet, moveOn_capped (w := w.meet record) hlimit]
  | error failure =>
      simp only [settle]
      by_cases hcancel : failure.isReservationCancelled = true
      · rw [if_pos hcancel, if_pos hcancel, lose_capped]
      · rw [if_neg hcancel, if_neg hcancel]
        rfl

/-- A turn of a walk with a limit is a turn of the walk without it. -/
theorem turn_capped (hlimit : w.limit = none) :
    (w.capped k).turn = w.turn.andThen fun w' => pure (w'.capped k) := by
  have hreserve : (w.capped k).reserve = w.reserve := rfl
  have hcursor : (w.capped k).cursor = w.cursor := rfl
  rw [turn, turn, hreserve, hcursor, Dialogue.andThen_andThen]
  congr 1
  funext reservation
  rw [Dialogue.andThen, Dialogue.handle_handle]
  congr 1
  funext fetched
  have hsettle : ((w.capped k).reserved reservation).settle fetched =
      ((w.reserved reservation).settle fetched).map (capped k) :=
    settle_capped (w := w.reserved reservation) hlimit fetched
  rw [hsettle]
  cases (w.reserved reservation).settle fetched <;> rfl

theorem run_turn_capped (hlimit : w.limit = none) (k : Nat) (t : Transport σ) (s : σ) :
    (w.capped k).turn.run t s = ⟨(w.turn.run t s).result.map (capped k),
      (w.turn.run t s).events, (w.turn.run t s).state⟩ := by
  rw [turn_capped hlimit, Dialogue.run_andThen_pure]

/-- A run that stops after `k` records, next to the whole run, which accepted `records`. -/
structure CutShort (k : Nat) (records : List Record)
    (whole short : Dialogue.Run σ (List Record)) : Prop where
  /-- What happens in the short run happens first in the whole run. -/
  events_isPrefix : short.events <+: whole.events
  /-- With enough records accepted the short run returns the first of them. -/
  reached : k ≤ records.length → short.result = .ok (records.take k)
  /-- With fewer the runs are the same. -/
  unreached : records.length < k → short = whole

/-- A run that did not come to so many records is not cut short. -/
theorem cutShort_self {records : List Record} (hk : records.length < k)
    (whole : Dialogue.Run σ (List Record)) : CutShort k records whole whole where
  events_isPrefix := List.prefix_rfl
  reached hle := absurd hle (Nat.not_le.mpr hk)
  unreached _ := rfl

/-- What comes before a run comes before the short run as well. -/
theorem CutShort.preceded {records : List Record} {whole short : Dialogue.Run σ (List Record)}
    (h : CutShort k records whole short) (events : List Dialogue.Event) :
    CutShort k records (whole.preceded events) (short.preceded events) where
  events_isPrefix := (List.prefix_append_right_inj events).mpr h.events_isPrefix
  reached := h.reached
  unreached hk := congrArg (Dialogue.Run.preceded events) (h.unreached hk)

/-- A walk that has as many records as the limit says stops at once. -/
theorem cutShort_of_length_eq {records : List Record} (hk : w.records.length = k)
    (hrecords : w.records <+: records) (whole : Dialogue.Run σ (List Record)) (t : Transport σ)
    (s : σ) : CutShort k records whole ((w.capped k).finish.run t s) := by
  have hdone : (w.capped k).done = true := by simp [capped, hk]
  rw [run_finish_of_done hdone]
  refine ⟨List.nil_prefix, fun _ => ?_, fun hlt => ?_⟩
  · rw [← hk, ← List.prefix_iff_eq_take.mp hrecords]
    rfl
  · have hlength := hrecords.length_le
    omega

/-- A run with room for more records is the run without a limit, cut short. -/
theorem cutShort_run_of_lt (t : Transport σ) (w : Walk) (s : σ) (hlimit : w.limit = none)
    (hlt : w.records.length < k) :
    CutShort k (w.atEnd t s).records (w.finish.run t s) ((w.capped k).finish.run t s) := by
  have hcapped := run_turn_capped hlimit k t s
  -- Along the turns of the run without a limit: as long as there is room, both walks take them.
  fun_induction atEnd t w s with
  | case1 w s hdone =>
      have hdone' : (w.capped k).done = true := by simp [capped, hdone]
      rw [run_finish_of_done hdone, run_finish_of_done hdone']
      exact cutShort_self hlt _
  | case2 w s hdone failure hturn =>
      rw [Bool.not_eq_true] at hdone
      have hdone' : (w.capped k).done = false := by simp [capped, hdone, hlt]
      rw [hturn] at hcapped
      rw [run_finish_of_turn_error hdone hturn,
        run_finish_of_turn_error hdone' (congrArg Dialogue.Run.result hcapped), hcapped]
      exact cutShort_self hlt _
  | case3 w s hdone w' hturn _ ih =>
      rw [Bool.not_eq_true] at hdone
      have hdone' : (w.capped k).done = false := by simp [capped, hdone, hlt]
      have hturned := w.turned_run t s
      rw [hturn] at hcapped hturned
      rw [run_finish_of_turn hdone hturn,
        run_finish_of_turn hdone' (congrArg Dialogue.Run.result hcapped), hcapped]
      refine CutShort.preceded ?_ _
      -- The turn may have brought the last record that the limit leaves room for.
      have hle : w'.records.length ≤ k := Nat.le_trans hturned.length_records_le hlt
      rcases Nat.eq_or_lt_of_le hle with hk | hlt'
      · exact cutShort_of_length_eq hk (records_isPrefix_atEnd t w' _) _ t _
      · have hlimit' := hturned.limit_eq.trans hlimit
        exact ih hlimit' hlt' (run_turn_capped hlimit' k t _)

/-- A run with a limit is the run without it, cut short. -/
theorem cutShort_run (t : Transport σ) (w : Walk) (s : σ) (hlimit : w.limit = none)
    (hle : w.records.length ≤ k) :
    CutShort k (w.atEnd t s).records (w.finish.run t s) ((w.capped k).finish.run t s) := by
  rcases Nat.eq_or_lt_of_le hle with hk | hlt
  · exact cutShort_of_length_eq hk (records_isPrefix_atEnd t w s) _ t s
  · exact cutShort_run_of_lt t w s hlimit hlt

/-! ## The end of a short run -/

/-- A short run returns the records that the whole run accepted, as far as the limit
allows. -/
theorem CutShort.eq_take {records short : List Record} {whole run : Dialogue.Run σ (List Record)}
    (h : CutShort k records whole run) (hwhole : ∀ rs, whole.result = .ok rs → rs = records)
    (hrun : run.result = .ok short) : short = records.take k := by
  rcases Nat.lt_or_ge records.length k with hlt | hle
  · rw [List.take_of_length_le (Nat.le_of_lt hlt)]
    exact hwhole short (h.unreached hlt ▸ hrun)
  · exact Except.ok.inj (hrun.symm.trans (h.reached hle))

/-- Exchanges that fetch these records, one visit each, with nothing after the last. -/
def Fetches (records : List Record) (xs : List Exchange) : Prop :=
  ∃ visits : List Visit, (∀ v ∈ visits, v.Valid) ∧ records = visits.map (·.record) ∧
    xs = visits.flatMap Visit.exchanges

/-- A walk that ends well sends nothing after its last record. -/
theorem Finished.fetches {records : List Record} (h : Finished w xs (.ok records))
    (hsound : w.Sound) (hrecords : w.records = []) : Fetches records xs := by
  obtain ⟨w', hwalked, hdone, rfl⟩ := h.exists_walked
  obtain ⟨visits, detour, htrail⟩ := hwalked.exists_trail hsound hrecords
  exact ⟨visits, htrail.valid, htrail.records_eq, htrail.exchanges_eq_of_done hdone⟩

end Walk

/-! ## Windows -/

/-- The part of a list of records that a window shows. -/
theorem drop_take_eq_window {records : List Record} {offset count total : Nat} :
    ((records.take (min (offset + count) total)).drop offset).take count =
      (records.drop offset).take (min count (total - offset)) := by
  rw [List.drop_take, List.take_take]
  congr 1
  omega

/-- A window is a block of the records that a walk without a limit accepts. -/
theorem eq_of_readWindow {t : Transport σ} {s : σ} {total offset count maxRecoveries : Nat}
    {records : List Record} (htotal : total ≤ maxCount)
    (h : ((readWindow total offset count maxRecoveries).run t s).result = .ok records) :
    records = (((Walk.start .first maxRecoveries).atEnd t s).records.drop offset).take
      (min count (total - offset)) := by
  by_cases hempty : count = 0 ∨ total ≤ offset
  · rw [readWindow_of_empty hempty] at h
    cases h
    have hmin : min count (total - offset) = 0 := by omega
    rw [hmin, List.take_zero]
  · rw [readWindow_of_not_empty hempty htotal, Walk.withLimit_start] at h
    obtain ⟨read, hresult, hrecords⟩ := Dialogue.exists_of_run_andThen h
    obtain rfl := Except.ok.inj hrecords
    have hshort := Walk.cutShort_run t (Walk.start .first maxRecoveries) s rfl
      (Nat.zero_le (min (offset + count) total))
    have hended := Walk.endedAt_run t (Walk.start .first maxRecoveries) s
    rw [hshort.eq_take (fun rs hrs => (hrs ▸ hended).eq_records) hresult, drop_take_eq_window]

/-- A window of the log, and its size, after one look at the state of the log. -/
theorem exists_info_of_readWindowOf {t : Transport σ} {s : σ}
    {offset count maxRecoveries total : Nat} {records : List Record}
    (h : ((readWindowOf offset count maxRecoveries).run t s).result = .ok (records, total)) :
    let looked := Command.getSelInfo.perform.run t s
    ∃ info, looked.result = .ok info ∧ total = info.entries.toNat ∧
      ((readWindow total offset count maxRecoveries).run t looked.state).result =
        .ok records := by
  intro looked
  rw [readWindowOf_eq, readFrom] at h
  obtain ⟨info, hlooked, hwindow⟩ := Dialogue.exists_of_run_andThen h
  obtain ⟨read, hread, hpair⟩ := Dialogue.exists_of_run_andThen hwindow
  obtain ⟨rfl, rfl⟩ := Prod.mk.inj (Except.ok.inj hpair)
  exact ⟨info, hlooked, rfl, hread⟩

/-- Whatever the controller replies, a walk with a limit is the walk without it, cut short
after as many records as the limit says; and a window is a block of the records that the
walk without a limit accepts, from its first record on and no longer than asked for. -/
theorem Walk.cutShort_and_windowed (t : Transport σ) (s : σ) (maxRecoveries : Nat) :
    (∀ (start : RecordId) (k : Nat),
      let w := Walk.start start maxRecoveries
      let whole := w.finish.run t s
      let short := (w.withLimit k).finish.run t s
      let accepted := (w.atEnd t s).records
      EndedAt w (w.atEnd t s) whole.exchanges whole.result ∧ CutShort k accepted whole short ∧
        (k ≤ accepted.length → Fetches (accepted.take k) short.exchanges)) ∧
    ∀ (offset count : Nat) (records : List Record) (total : Nat),
      ((readWindowOf offset count maxRecoveries).run t s).result = .ok (records, total) →
      let looked := Command.getSelInfo.perform.run t s
      let accepted := ((Walk.start .first maxRecoveries).atEnd t looked.state).records
      (∃ info, looked.result = .ok info ∧ total = info.entries.toNat) ∧
        records.length ≤ min count (total - offset) ∧
        records = (accepted.drop offset).take (min count (total - offset)) := by
  refine ⟨fun start k => ?_, fun offset count records total h => ?_⟩
  · intro w whole short accepted
    have hcut : CutShort k accepted whole short := by
      have hrun := cutShort_run t w s rfl (Nat.zero_le k)
      rwa [← withLimit_start] at hrun
    refine ⟨endedAt_run t w s, hcut, fun hk => ?_⟩
    have hfinished := finished_run (w.withLimit k) t s
    rw [hcut.reached hk] at hfinished
    exact hfinished.fetches (sound_start start maxRecoveries (some k)) rfl
  · intro looked accepted
    obtain ⟨info, hinfo, htotal, hread⟩ := exists_info_of_readWindowOf h
    have hmax : total ≤ maxCount := by
      have hlt := info.entries.toNat_lt
      unfold maxCount
      omega
    have heq := eq_of_readWindow hmax hread
    refine ⟨⟨info, hinfo, htotal⟩, ?_, heq⟩
    rw [heq]
    exact List.length_take_le _ _

end Baseboard.Sel
