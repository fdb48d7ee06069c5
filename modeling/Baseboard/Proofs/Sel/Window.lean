import Baseboard.Console
import Baseboard.Proofs.Sel.Delivery
import Baseboard.Proofs.Sel.Ending

/-!
# Baseboard.Proofs.Sel.Window

Windows of the log, from a controller that serves it.  A window is the records from
some place on, at most so many of them; it is cut off at the end of the log, however
far it was to reach.  The records up to its end are read, each to completion and none
twice, and the records before it are dropped.  For an empty window nothing is read.

A walk with a limit reads as many records as the limit says
(`Finished.eq_ok_of_limit`), and the reads that complete a record go through the log
in order (`Log.recordAt?_visits`).  Main statement: `windowed_of_attends`.
-/

namespace Baseboard.Sel

variable {σ : Type} {log : Log}

/-! ## Records fetched to completion -/

/-- A detour completes no record. -/
theorem Detour.filter_completes {cursor : RecordId} {xs : List Exchange} (h : Detour cursor xs) :
    xs.filter completes = [] := by
  induction h with
  | nil => rfl
  | reserve _ hx ih =>
      obtain ⟨-, hcompletes, -⟩ := uneventful_of_reserves hx
      rw [List.filter_append, ih, List.nil_append, List.filter_cons_of_neg (by simp [hcompletes]),
        List.filter_nil]
  | cancelled _ hys _ ih =>
      rw [List.filter_append, ih, List.nil_append, hys.ends.filter_completes_of_error]

/-- A visit completes one record, the one at its cursor. -/
theorem Visit.Valid.filter_completes {v : Visit} (h : v.Valid) :
    (v.exchanges.filter completes).map recordOf? = [some v.cursor] := by
  obtain ⟨last, hlast, hfilter⟩ := h.fetch.ends.exists_filter_completes
  rw [Visit.exchanges, List.filter_append, h.detour.filter_completes, List.nil_append, hfilter,
    List.map_singleton, h.fetch.recordOf?_eq last hlast]

/-- The records that a walk has completed are those of its visits. -/
theorem Walk.Trail.filter_completes {start : RecordId} {xs : List Exchange} {w : Walk}
    {visits : List Visit} {detour : List Exchange} (h : Trail start xs w visits detour) :
    (xs.filter completes).map recordOf? = visits.map fun v => some v.cursor := by
  rw [h.exchanges_eq, List.filter_append, h.astray.filter_completes, List.append_nil]
  have hvalid := h.valid
  clear h
  induction visits with
  | nil => rfl
  | cons v vs ih =>
      rw [List.flatMap_cons, List.filter_append, List.map_append,
        (hvalid v List.mem_cons_self).filter_completes,
        ih fun u hu => hvalid u (List.mem_cons_of_mem v hu)]
      rfl

/-! ## The log that the visits go through -/

namespace Log

/-- The record of a log that an identifier asks for. -/
def recordAt? (log : Log) (id : RecordId) : Option StoredRecord :=
  (log.find? .last id).map (·.1)

/-- The record of a log that an exchange reads from. -/
def asked? (log : Log) (x : Exchange) : Option StoredRecord := (recordOf? x).bind log.recordAt?

/-- Visits that follow what a controller with the log replies ask for its records, one
after the other. -/
theorem recordAt?_visits {before todo : List StoredRecord} {start last : RecordId}
    {visits : List Visit} (hlog : log.records = before ++ todo)
    (hstart : start = nextId .last todo ∨ start = .first ∧ before = [] ∧ todo ≠ [])
    (hchain : Visit.Chain start visits last) (hvalid : ∀ v ∈ visits, v.Valid)
    (hne : ∀ v ∈ visits, v.cursor ≠ .last)
    (hserves : ∀ v ∈ visits, ∀ x ∈ v.fetch, log.serves .last x = true) :
    visits.map (fun v => log.recordAt? v.cursor) = (todo.take visits.length).map some := by
  induction visits generalizing before todo start with
  | nil => rfl
  | cons v vs ih =>
      obtain ⟨rfl, hchain⟩ := hchain
      cases todo with
      | nil =>
          rcases hstart with hlast | ⟨-, -, hnil⟩
          · exact absurd hlast (hne v List.mem_cons_self)
          · exact absurd rfl hnil
      | cons y rest =>
          have hfind : log.find? .last v.cursor = some (y, nextId .last rest) :=
            Log.find?_eq_some hlog (hstart.imp_right fun h => ⟨h.1, h.2.1⟩)
          have hdelivered := log.fetched_of_serves hfind (hserves v List.mem_cons_self)
            (hvalid v List.mem_cons_self).fetch
          obtain ⟨hnext, -⟩ := Prod.mk.inj hdelivered.eq_whole
          have hlog' : log.records = (before ++ [y]) ++ rest := by
            rw [hlog, List.append_assoc, List.singleton_append]
          have hrest := ih hlog' (.inl hnext) hchain
            (fun u hu => hvalid u (List.mem_cons_of_mem v hu))
            (fun u hu => hne u (List.mem_cons_of_mem v hu))
            (fun u hu => hserves u (List.mem_cons_of_mem v hu))
          rw [List.map_cons, hrest, recordAt?, hfind]
          rfl

/-- Every record of a log can be decoded. -/
theorem exists_decoded (log : Log) : ∃ records : List Record,
    log.records.map (fun y => Record.decode y.bytes) = records.map .ok := by
  induction log.records with
  | nil => exact ⟨[], rfl⟩
  | cons y rest ih =>
      obtain ⟨records, hrecords⟩ := ih
      obtain ⟨record, hrecord⟩ := Record.exists_decode_eq_ok (Nat.le_of_eq y.length_bytes.symm)
      exact ⟨record :: records, by rw [List.map_cons, hrecords, hrecord, List.map_cons]⟩

end Log

/-! ## Walks with a limit -/

namespace Walk

variable {w : Walk} {xs : List Exchange} {skipped read todo : List StoredRecord}

/-- A limit does not throw a walk off the track. -/
theorem OnTrack.withLimit {closing : RecordId} (h : OnTrack log closing skipped read todo xs w)
    (limit : Nat) : OnTrack log closing skipped read todo xs (w.withLimit limit) where
  log_eq := h.log_eq
  decoded := h.decoded
  cursor := h.cursor
  visited := h.visited
  streak := h.streak

theorem OnTrack.length_read {closing : RecordId}
    (h : OnTrack log closing skipped read todo xs w) : read.length = w.records.length := by
  simpa using congrArg List.length h.decoded

/-- A walk that is done has read as many records as its limit says, be it at the end of
the log. -/
theorem Walked.length_records_eq {w' : Walk} {limit : Nat} (hwalked : Walked w xs w')
    (hsound : w.Sound) (hrecords : w.records = []) (hdone : w'.done = true)
    (hlimit : w.limit = some limit) (hle : limit ≤ log.records.length)
    (htrack : OnTrack log .last [] read todo xs w') : w'.records.length = limit := by
  obtain ⟨visits, detour, htrail⟩ := hwalked.exists_trail hsound hrecords
  have hlimit' : w'.limit = some limit := hwalked.limit_eq.trans hlimit
  refine Nat.le_antisymm ?_ ?_
  · rw [htrail.records_eq, List.length_map]
    exact htrail.length_le limit hlimit'
  · rcases (hwalked.sound hsound).isLast_or_reachesLimit hdone with hlast | ⟨n, hn, hreached⟩
    · rw [htrack.log_eq, htrack.todo_eq_nil hlast, List.append_nil, List.nil_append,
        htrack.length_read] at hle
      exact hle
    · rw [hlimit'] at hn
      cases hn
      exact hreached

/-- From the first record on, the reads that complete a record complete as many records of
the log as the walk has accepted, in order. -/
theorem Trail.map_asked? {visits : List Visit} {detour : List Exchange}
    (h : Trail .first xs w visits detour) (hne : log.records ≠ [])
    (hserves : ∀ x ∈ xs, log.serves .last x = true) :
    (xs.filter completes).map log.asked? = (log.records.take w.records.length).map some := by
  have hall : log.records = [] ++ log.records := rfl
  have hvisits := Log.recordAt?_visits hall (.inr ⟨rfl, rfl, hne⟩) h.chain h.valid h.ne_last
    fun v hv x hx => hserves x (by
      rw [h.exchanges_eq]
      exact List.mem_append_left _
        (List.mem_flatMap.mpr ⟨v, hv, List.mem_append_right v.detour hx⟩))
  have hcompleted := congrArg (List.map (Option.bind · log.recordAt?)) h.filter_completes
  rw [List.map_map, List.map_map] at hcompleted
  rw [h.records_eq, List.length_map, ← hvisits]
  exact hcompleted

/-- A walk over a whole log with a limit returns as many records as the limit says, and
completes no others. -/
theorem Finished.eq_ok_of_limit {maxRecoveries limit : Nat}
    {result : Except Failure (List Record)} (hne : log.records ≠ [])
    (hlimit : limit ≤ log.records.length) (hserves : ∀ x ∈ xs, log.serves .last x = true)
    (hcancels : CancelsAtMost maxRecoveries xs)
    (hfinished : Finished ((Walk.start .first maxRecoveries).withLimit limit) xs result) :
    ∃ records, (log.records.take limit).map (fun y => Record.decode y.bytes) = records.map .ok ∧
      result = .ok records ∧
      (xs.filter completes).map log.asked? = (log.records.take limit).map some := by
  have hsound := sound_start .first maxRecoveries (some limit)
  obtain ⟨y, rest, hlog⟩ := List.exists_cons_of_ne_nil hne
  have hstart : OnTrack log .last [] [] (y :: rest) []
      ((Walk.start .first maxRecoveries).withLimit limit) :=
    (onTrack_start hlog (.inr ⟨rfl, rfl⟩)).withLimit limit
  obtain ⟨w', read, todo, hwalked, hdone, rfl, htrack⟩ :=
    hfinished.exists_onTrack hsound hstart hserves hcancels
  have hlength := hwalked.length_records_eq hsound rfl hdone rfl hlimit htrack
  have htake : log.records.take limit = read := by
    rw [htrack.log_eq, ← hlength, ← htrack.length_read, List.nil_append, List.take_left]
  obtain ⟨visits, detour, htrail⟩ := hwalked.exists_trail hsound rfl
  exact ⟨w'.records, by rw [htake, htrack.decoded], rfl,
    hlength ▸ htrail.map_asked? hne hserves⟩

end Walk

/-! ## Windows -/

@[simp] theorem EntryRead.ofRequest?_getSelInfo :
    EntryRead.ofRequest? Command.getSelInfo.request = none := by
  decide

/-- Whether a reply to a Get SEL Info command says that the log has `total` records. -/
def reportsTotal (total : Nat) : Except Failure Response → Bool
  | .ok ⟨0x00, _ :: lo :: hi :: rest⟩ => (le16 lo hi).toNat = total && 11 ≤ rest.length
  | _ => false

/-- Exchanges with a controller that serves its log, says how long it is, and does not
cancel too often between two records. -/
structure Log.Attends (log : Log) (maxRecoveries : Nat) (xs : List Exchange) : Prop where
  serves : ∀ x ∈ xs, log.serves .last x = true
  reports : ∀ x ∈ xs, x.request = Command.getSelInfo.request →
    reportsTotal log.records.length x.reply = true
  cancels : CancelsAtMost maxRecoveries xs

/-- A run that returned the records of a log numbered from `first` up to `stop`, and how
many records the log has. -/
structure Windowed (log : Log) (first stop : Nat) (r : Dialogue.Run σ (List Record × Nat)) :
    Prop where
  result_eq : ∃ records : List Record,
    log.records.map (fun y => Record.decode y.bytes) = records.map .ok ∧
      r.result = .ok ((records.take stop).drop first, log.records.length)
  /-- For an empty window nothing is asked for but the state of the log. -/
  requests_eq : stop ≤ first → r.exchanges.map (·.request) = [Command.getSelInfo.request]
  /-- Otherwise the reads that complete a record complete those up to the end of the
  window, each once. -/
  completed_eq : first < stop →
    (r.exchanges.filter completes).map log.asked? = (log.records.take stop).map some

/-- A window whose place depends on how many records the log has. -/
def readFrom (offset : Nat → Nat) (count maxRecoveries : Nat) : Dialogue (List Record × Nat) :=
  Command.getSelInfo.perform.andThen fun info =>
    (readWindow info.entries.toNat (offset info.entries.toNat) count maxRecoveries).andThen
      fun records => pure (records, info.entries.toNat)

theorem readWindowOf_eq (offset count maxRecoveries : Nat) :
    readWindowOf offset count maxRecoveries = readFrom (fun _ => offset) count maxRecoveries := rfl

theorem readLatest_eq (count maxRecoveries : Nat) :
    readLatest count maxRecoveries = readFrom (· - count) count maxRecoveries := rfl

theorem exists_info_of_reportsTotal {total : Nat} {reply : Except Failure Response}
    (h : reportsTotal total reply = true) :
    ∃ info, Command.getSelInfo.outcome reply = .ok info ∧ info.entries.toNat = total := by
  unfold reportsTotal at h
  split at h
  · next version lo hi rest =>
    simp only [Bool.and_eq_true, decide_eq_true_eq] at h
    obtain ⟨htotal, hlength⟩ := h
    iterate 11
      rcases rest with _ | ⟨_, rest⟩
      · simp at hlength
    exact ⟨_, rfl, htotal⟩
  · contradiction

/-- The state of the log is had, and with it the number of its records. -/
theorem Log.Attends.exists_info {maxRecoveries : Nat} {xs : List Exchange} {x : Exchange}
    {result : Except Failure Info} (h : log.Attends maxRecoveries (x :: xs))
    (hx : x.Performs .getSelInfo result) :
    ∃ info, result = .ok info ∧ info.entries.toNat = log.records.length := by
  rw [← hx.outcome_eq]
  exact exists_info_of_reportsTotal (h.reports x List.mem_cons_self hx.request_eq)

theorem Log.Attends.tail {maxRecoveries : Nat} {xs : List Exchange} {x : Exchange}
    (h : log.Attends maxRecoveries (x :: xs)) : log.Attends maxRecoveries xs where
  serves y hy := h.serves y (List.mem_cons_of_mem x hy)
  reports y hy := h.reports y (List.mem_cons_of_mem x hy)
  cancels ys hys := h.cancels ys (hys.trans (List.suffix_cons x xs).isInfix)

/-- A window is read after one look at the state of the log. -/
theorem exists_run_readFrom (t : Transport σ) (s : σ) (offset : Nat → Nat)
    (count maxRecoveries : Nat)
    (h : log.Attends maxRecoveries ((readFrom offset count maxRecoveries).run t s).exchanges) :
    let r := (readFrom offset count maxRecoveries).run t s
    let total := log.records.length
    let window := readWindow total (offset total) count maxRecoveries
    total < 65536 ∧ ∃ x s', x.request = Command.getSelInfo.request ∧
      r.exchanges = x :: (window.run t s').exchanges ∧
      r.result = (window.run t s').result.map fun records => (records, total) := by
  intro r total window
  rcases Command.exists_performs_andThen .getSelInfo _ t s with
    ⟨x, failure, hx, hxs, -⟩ | ⟨x, info, s', hx, hxs, hresult⟩
  · rw [readFrom, hxs] at h
    obtain ⟨info, hinfo, -⟩ := h.exists_info hx
    contradiction
  · rw [readFrom, hxs] at h
    obtain ⟨info', hinfo, htotal⟩ := h.exists_info hx
    cases hinfo
    rw [Dialogue.run_andThen_pure, htotal] at hxs hresult
    have hlt := info.entries.toNat_lt
    rw [htotal] at hlt
    exact ⟨hlt, x, s', hx.request_eq, hxs, hresult⟩

theorem readWindow_of_empty {total offset count : Nat} (h : count = 0 ∨ total ≤ offset)
    (maxRecoveries : Nat) : readWindow total offset count maxRecoveries = pure [] := by
  rw [readWindow, if_pos h]

theorem readWindow_of_not_empty {total offset count : Nat} (h : ¬ (count = 0 ∨ total ≤ offset))
    (htotal : total ≤ maxCount) (maxRecoveries : Nat) :
    readWindow total offset count maxRecoveries =
      ((Walk.start .first maxRecoveries).withLimit (min (offset + count) total)).finish.andThen
        fun records => pure ((records.drop offset).take count) := by
  rw [readWindow, if_neg h, windowEnd_eq htotal]
  rfl

/-- A window that is not empty is read up to its end, and what comes before it is
dropped. -/
theorem run_readWindow_of_not_empty {t : Transport σ} {s : σ} {first count maxRecoveries : Nat}
    (hempty : ¬ (count = 0 ∨ log.records.length ≤ first))
    (hmax : log.records.length ≤ maxCount)
    (h : log.Attends maxRecoveries
      ((readWindow log.records.length first count maxRecoveries).run t s).exchanges) :
    let r := (readWindow log.records.length first count maxRecoveries).run t s
    let stop := min (first + count) log.records.length
    (∃ records : List Record,
      log.records.map (fun y => Record.decode y.bytes) = records.map .ok ∧
        r.result = .ok ((records.take stop).drop first)) ∧
      (r.exchanges.filter completes).map log.asked? = (log.records.take stop).map some := by
  intro r stop
  obtain ⟨records, hrecords⟩ := log.exists_decoded
  have hr := Dialogue.run_andThen_pure t ((Walk.start .first maxRecoveries).withLimit stop).finish
    (fun records => (records.drop first).take count) s
  rw [← readWindow_of_not_empty hempty hmax] at hr
  rw [hr] at h
  have hne : log.records ≠ [] := by
    rintro hnil
    simp [hnil] at hempty
  obtain ⟨taken, htaken, hresult, hasked⟩ :=
    (Walk.finished_run ((Walk.start .first maxRecoveries).withLimit stop) t s).eq_ok_of_limit
      hne (Nat.min_le_right _ _) h.serves h.cancels
  have heq : taken = records.take stop := by
    rw [List.map_take, hrecords, ← List.map_take] at htaken
    exact ((List.map_inj_right fun _ _ => Except.ok.inj).mp htaken).symm
  have hlength : ((records.take stop).drop first).length ≤ count := by
    rw [List.length_drop, List.length_take]
    omega
  refine ⟨⟨records, hrecords, ?_⟩, ?_⟩
  · simp only [r, hr, hresult, heq, Except.map, List.take_of_length_le hlength]
  · simp only [r, hr]
    exact hasked

/-- From a controller that attends, any window is returned as it stands in the log. -/
theorem windowed_readFrom (t : Transport σ) (s : σ) (offset : Nat → Nat)
    (count maxRecoveries : Nat)
    (h : log.Attends maxRecoveries ((readFrom offset count maxRecoveries).run t s).exchanges) :
    Windowed log (offset log.records.length)
      (min (offset log.records.length + count) log.records.length)
      ((readFrom offset count maxRecoveries).run t s) := by
  obtain ⟨hlt, x, s', hrequest, hxs, hresult⟩ :=
    exists_run_readFrom t s offset count maxRecoveries h
  rw [hxs] at h
  generalize offset log.records.length = first at hxs hresult h
  by_cases hempty : count = 0 ∨ log.records.length ≤ first
  · have hstop : min (first + count) log.records.length ≤ first := by omega
    obtain ⟨records, hrecords⟩ := log.exists_decoded
    rw [readWindow_of_empty hempty] at hxs hresult
    refine ⟨⟨records, hrecords, ?_⟩, fun _ => ?_, fun hfirst => ?_⟩
    · rw [hresult, List.drop_eq_nil_of_le (Nat.le_trans (List.length_take_le _ _) hstop)]
      rfl
    · rw [hxs, List.map_cons, hrequest]
      rfl
    · omega
  · have hmax : log.records.length ≤ maxCount := Nat.le_trans (Nat.le_of_lt hlt) (by decide)
    obtain ⟨⟨records, hrecords, hok⟩, hasked⟩ :=
      run_readWindow_of_not_empty hempty hmax h.tail
    refine ⟨⟨records, hrecords, by rw [hresult, hok]; rfl⟩, fun hstop => ?_, fun _ => ?_⟩
    · omega
    · rw [hxs, List.filter_cons_of_neg (by simp [completes, hrequest]), hasked]

/-- From a controller that serves its log and says how long it is, the records of a
window are returned as they stand in the log, and the last records of the log are
returned.  The records up to the end of the window are fetched to completion, each once
and no others; for an empty window nothing is read. -/
theorem windowed_of_attends (log : Log) (t : Transport σ) (s : σ) :
    (∀ offset count maxRecoveries : Nat,
      log.Attends maxRecoveries ((readWindowOf offset count maxRecoveries).run t s).exchanges →
      Windowed log offset (min (offset + count) log.records.length)
        ((readWindowOf offset count maxRecoveries).run t s)) ∧
    ∀ (c : Console) (count : Nat),
      log.Attends c.settings.reservationRetries.toNat ((c.readLatest count).run t s).exchanges →
      Windowed log (log.records.length - min count log.records.length) log.records.length
        ((c.readLatest count).run t s) := by
  constructor
  · intro offset count maxRecoveries h
    rw [readWindowOf_eq] at h ⊢
    exact windowed_readFrom t s _ count maxRecoveries h
  · intro c count h
    rw [Console.readLatest, readLatest_eq] at h ⊢
    have hwindowed := windowed_readFrom t s _ count c.settings.reservationRetries.toNat h
    have hfirst : log.records.length - count =
        log.records.length - min count log.records.length := by omega
    have hstop : min (log.records.length - count + count) log.records.length =
        log.records.length := by omega
    rwa [hstop, hfirst] at hwindowed

/-! ## A window of two records -/

/-- A controller with two records says so and then cancels a reservation once. -/
def countedOnce : List (Except Failure Response) :=
  .ok ⟨0x00, 0x51 :: 2 :: 0 :: List.replicate 11 0⟩ :: Walk.cancelledOnce

/-- Whatever was asked before, a walk with a limit of two sends the requests of a walk
without a limit. -/
theorem exchanges_cancelledOnce (asked : List Script.Entry) :
    (((Walk.start .first 3).withLimit 2).finish.run Script.transport
      ⟨Walk.cancelledOnce, [], asked⟩).exchanges =
        (Walk.askedFor.map (·.request)).zipWith Exchange.mk Walk.cancelledOnce := by
  rw [@Walk.run_finish_of_turn _ _
      ⟨⟨2⟩, [⟨1⟩, ⟨0⟩], some ⟨1⟩, 0, 3, some 2, [Walk.firstRecord], false⟩
      _ _ rfl (by with_unfolding_all rfl),
    @Walk.run_finish_of_turn _ _
      ⟨⟨2⟩, [⟨1⟩, ⟨0⟩], none, 1, 3, some 2, [Walk.firstRecord], false⟩
      _ _ rfl (by with_unfolding_all rfl),
    @Walk.run_finish_of_turn _ _
      ⟨.last, [⟨2⟩, ⟨2⟩, ⟨1⟩, ⟨0⟩], some ⟨2⟩, 0, 3, some 2,
        [Walk.firstRecord, Walk.secondRecord], true⟩ _ _ rfl (by with_unfolding_all rfl),
    Walk.finish_eq, if_pos rfl]
  with_unfolding_all rfl

/-- A window that reaches the end of two records is read by that walk, after a look at
the state of the log. -/
theorem exchanges_countedOnce {offset : Nat → Nat} {count : Nat}
    (hempty : ¬ (count = 0 ∨ 2 ≤ offset 2)) (hstop : min (offset 2 + count) 2 = 2) :
    ((readFrom offset count 3).run Script.transport (.start countedOnce [])).exchanges =
      ((Command.getSelInfo :: Walk.askedFor).map (·.request)).zipWith Exchange.mk countedOnce := by
  have hrun : ∃ asked, ((readFrom offset count 3).run Script.transport
      (.start countedOnce [])).exchanges =
        ⟨Command.getSelInfo.request, .ok ⟨0x00, 0x51 :: 2 :: 0 :: List.replicate 11 0⟩⟩ ::
          (((readWindow 2 (offset 2) count 3).andThen fun records => pure (records, 2)).run
            Script.transport ⟨Walk.cancelledOnce, [], asked⟩).exchanges := ⟨_, rfl⟩
  obtain ⟨asked, hrun⟩ := hrun
  rw [hrun, Dialogue.run_andThen_pure, readWindow_of_not_empty hempty (by decide), hstop,
    Dialogue.run_andThen_pure]
  exact congrArg (List.cons _) (exchanges_cancelledOnce asked)

/-- A controller that may cancel a reservation once has the second of two records read,
as the window from it on and as the last one. -/
theorem windowed_twoRecords :
    let window := (readWindowOf 1 maxCount 3).run Script.transport (.start countedOnce [])
    let c : Console := ⟨.standard, rfl⟩
    let latest := (c.readLatest 1).run Script.transport (.start countedOnce [])
    (Walk.twoRecords.Attends 3 window.exchanges ∧ Windowed Walk.twoRecords 1 2 window) ∧
      Walk.twoRecords.Attends 3 latest.exchanges ∧ Windowed Walk.twoRecords 1 2 latest := by
  intro window c latest
  have hstop : min (1 + maxCount) 2 = 2 := by
    unfold maxCount
    omega
  have hattends : Walk.twoRecords.Attends 3
      (((Command.getSelInfo :: Walk.askedFor).map (·.request)).zipWith Exchange.mk
        countedOnce) := by
    refine ⟨by decide, by decide, fun ys hys _ => ?_⟩
    exact Nat.le_trans hys.sublist.countP_le (by decide)
  obtain ⟨hwindowed, hlatest⟩ :=
    windowed_of_attends Walk.twoRecords Script.transport (.start countedOnce [])
  have hwindow := @exchanges_countedOnce (fun _ => 1) maxCount (by unfold maxCount; omega) hstop
  rw [← readWindowOf_eq] at hwindow
  have hlast := @exchanges_countedOnce (· - 1) 1 (by decide) (by decide)
  rw [← readLatest_eq] at hlast
  have hfirst : Walk.twoRecords.Attends 3 window.exchanges := hwindow ▸ hattends
  have hsecond : Walk.twoRecords.Attends 3 latest.exchanges := hlast ▸ hattends
  have hread := hwindowed 1 maxCount 3 hfirst
  rw [show Walk.twoRecords.records.length = 2 from rfl, hstop] at hread
  exact ⟨⟨hfirst, hread⟩, hsecond, hlatest c 1 hsecond⟩

end Baseboard.Sel
