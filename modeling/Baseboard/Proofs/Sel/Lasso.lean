import Baseboard.Proofs.Sel.Bounds
import Baseboard.Proofs.Sel.Window

/-!
# Baseboard.Proofs.Sel.Lasso

Logs that lead back into themselves.  The last record of such a log names a record of the
log as the one after it, be it itself, or the first one under either of its names.  A walk
through it fetches every record, each once, and refuses the last one, because that leads
back; it refuses none before.

`Looping` is the invariant.  Main statement: `readLog_of_leadsBack`.
-/

namespace Baseboard.Sel

variable {log : Log} {closing : RecordId}

/-! ## Fetches begun and completed -/

/-- Whether an exchange begins a fetch. -/
def begins (x : Exchange) : Bool := startsFetch x.request

/-- A fetch begins once. -/
theorem Fetched.exists_filter_begins {reservation : Reservation} {id : RecordId}
    {xs : List Exchange} {result : Except Failure (RecordId × List UInt8)}
    (h : Fetched reservation id xs result) : ∃ x ∈ xs, xs.filter begins = [x] := by
  obtain ⟨x, rest, rfl, hwhole, -, hrest⟩ := h.exists_cons
  have hx : begins x = true := by rw [begins, hwhole, startsFetch_whole]
  have hnone : rest.filter begins = [] := by
    refine List.filter_eq_nil_iff.mpr fun y hy => ?_
    obtain ⟨known, -, hmissing⟩ := hrest y hy
    rw [begins, hmissing, startsFetch_of_continuesFetch (continuesFetch_missingRead _ _ known)]
    exact Bool.false_ne_true
  exact ⟨x, List.mem_cons_self, by rw [List.filter_cons_of_pos hx, hnone]⟩

theorem countP_cancels_of_none {xs : List Exchange} (h : ∀ x ∈ xs, cancels x = false) :
    xs.countP cancels = 0 :=
  List.countP_eq_zero.mpr fun x hx => by simp [h x hx]

theorem cancelsAtMost_of_none {xs : List Exchange} (h : ∀ x ∈ xs, cancels x = false) (n : Nat) :
    CancelsAtMost n xs := by
  intro ys hys _
  rw [countP_cancels_of_none fun y hy => h y (hys.subset hy)]
  exact Nat.zero_le n

namespace Walk

variable {w w' : Walk} {xs ys ls zs : List Exchange} {read todo : List StoredRecord}
  {y : StoredRecord} {reservation : Reservation} {record : Record}

theorem Reserved.filter_begins (h : Reserved w xs reservation) : xs.filter begins = [] := by
  cases h with
  | held => rfl
  | made _ hx => simp [begins, startsFetch, hx.request_eq]

theorem Reserved.filter_completes (h : Reserved w xs reservation) : xs.filter completes = [] :=
  List.filter_eq_nil_iff.mpr fun x hx => by simp [h.completes_eq_false.1 x hx]

/-- Every read of a fetch is for the record that comes next. -/
theorem OnTrack.asked?_of_fetched {skipped : List StoredRecord} {x : Exchange}
    {result : Except Failure (RecordId × List UInt8)}
    (h : OnTrack log closing skipped read (y :: todo) xs w)
    (hzs : Fetched reservation w.cursor zs result) (hx : x ∈ zs) : log.asked? x = some y := by
  have hcursor := h.cursor.imp_right fun hfirst => And.intro hfirst.1
    (show skipped ++ read = [] by rw [hfirst.2.1, hfirst.2.2.1]; rfl)
  rw [Log.asked?, hzs.recordOf?_eq x hx, Option.bind_some, Log.recordAt?,
    Log.find?_eq_some h.log_eq hcursor]
  rfl

/-- A turn that fetches the record that comes next does so once. -/
theorem OnTrack.map_asked?_filter {skipped : List StoredRecord} {p : Exchange → Bool}
    {result : Except Failure (RecordId × List UInt8)}
    (h : OnTrack log closing skipped read (y :: todo) xs w) (hls : ls.filter p = [])
    (hzs : Fetched reservation w.cursor zs result) (hp : ∃ x ∈ zs, zs.filter p = [x]) :
    ((ls ++ zs).filter p).map log.asked? = [some y] := by
  obtain ⟨x, hx, hfilter⟩ := hp
  rw [List.filter_append, hls, List.nil_append, hfilter, List.map_singleton,
    h.asked?_of_fetched hzs hx]

/-! ## The invariant -/

/-- A walk on track through a log from the first record on, which has met all that it
read and fetched each of it once. -/
structure Looping (log : Log) (closing : RecordId) (read todo : List StoredRecord)
    (xs : List Exchange) (w : Walk) : Prop extends OnTrack log closing [] read todo xs w where
  met : ∀ id, id = .first ∨ id ∈ read.map (·.id) → id ∈ w.cursor :: w.visited
  begun : (xs.filter begins).map log.asked? = read.map some
  completed : (xs.filter completes).map log.asked? = read.map some

theorem looping_start {maxRecoveries : Nat} (hlog : log.records = y :: todo) :
    Looping log closing [] (y :: todo) [] (Walk.start .first maxRecoveries) where
  toOnTrack := onTrack_start hlog (.inr ⟨rfl, rfl⟩)
  met id hid := by
    rcases hid with rfl | hid
    · exact List.mem_cons_self
    · contradiction
  begun := rfl
  completed := rfl

/-- What was read is met, and with it the record that comes next. -/
theorem Looping.mem_met (h : Looping log closing read (y :: todo) xs w)
    (hrecord : Record.decode y.bytes = .ok record) {id : RecordId}
    (hid : id = .first ∨ id ∈ (read ++ [y]).map (·.id)) : id ∈ (w.meet record).visited := by
  have hmeet : (w.meet record).visited = record.id :: w.cursor :: w.visited := rfl
  rw [List.map_append, List.mem_append, ← or_assoc] at hid
  rcases hid with hid | hy
  · exact hmeet ▸ List.mem_cons_of_mem _ (h.met id hid)
  · rw [hmeet, List.mem_singleton.mp hy, StoredRecord.id_of_decode hrecord]
    exact List.mem_cons_self

/-- The last record leads back. -/
theorem Looping.leadsBack (h : Looping log closing read [y] xs w)
    (hclosing : closing = .first ∨ closing ∈ log.records.map (·.id))
    (hrecord : Record.decode y.bytes = .ok record) : (w.meet record).LeadsBack closing := by
  refine ⟨?_, h.mem_met hrecord (by rwa [h.log_eq] at hclosing)⟩
  rcases hclosing with rfl | hmem
  · decide
  · obtain ⟨z, hz, rfl⟩ := List.mem_map.mp hmem
    exact log.ne_last z hz

/-! ## Turns -/

/-- The record that comes next is fetched once, and then it is read. -/
theorem Looping.accepted (h : Looping log closing read (y :: todo) xs w)
    (hls : Reserved w ls reservation)
    (hzs : Fetched reservation w.cursor zs (.ok (nextId closing todo, y.bytes)))
    (hrecord : Record.decode y.bytes = .ok record) :
    Looping log closing (read ++ [y]) todo (xs ++ (ls ++ zs))
      (w.accepted reservation record (nextId closing todo)) where
  toOnTrack := h.toOnTrack.accepted hrecord
  met id hid := List.mem_cons_of_mem _ (h.mem_met hrecord hid)
  begun := by
    rw [List.filter_append, List.map_append, h.begun, List.map_append,
      h.map_asked?_filter hls.filter_begins hzs hzs.exists_filter_begins]
    rfl
  completed := by
    rw [List.filter_append, List.map_append, h.completed, List.map_append,
      h.map_asked?_filter hls.filter_completes hzs hzs.ends.exists_filter_completes]
    rfl

/-- A turn that goes on read a record that is not the last. -/
theorem Looping.turned (h : Looping log closing read (y :: todo) xs w)
    (hclosing : closing = .first ∨ closing ∈ log.records.map (·.id))
    (hserves : ∀ x ∈ ys, log.serves closing x = true)
    (hcancels : ∀ x ∈ ys, cancels x = false)
    (hturn : Turned w ys (.ok w')) :
    todo ≠ [] ∧ Looping log closing (read ++ [y]) todo (xs ++ ys) w' := by
  cases hturn with
  | accepted hls hzs hrecord hfresh =>
      obtain ⟨rfl, rfl⟩ := Prod.mk.inj (h.delivered hserves hzs).eq_whole
      refine ⟨?_, h.accepted hls hzs hrecord⟩
      rintro rfl
      exact hfresh (h.leadsBack hclosing hrecord)
  | @lost ls zs _ _ hls hzs =>
      obtain ⟨-, hcount, -⟩ := (h.delivered hserves hzs).of_error
      have hzero := countP_cancels_of_none fun x hx => hcancels x (List.mem_append_right ls hx)
      omega

theorem Walked.looping (h : Looping log closing [] (y :: todo) [] w)
    (hclosing : closing = .first ∨ closing ∈ log.records.map (·.id))
    (hserves : ∀ x ∈ xs, log.serves closing x = true)
    (hcancels : ∀ x ∈ xs, cancels x = false)
    (hwalked : Walked w xs w') :
    ∃ read z rest, Looping log closing read (z :: rest) xs w' := by
  induction hwalked with
  | start => exact ⟨[], y, todo, h⟩
  | turn _ _ hturn ih =>
      obtain ⟨read, z, rest, hlooping⟩ :=
        ih (fun x hx => hserves x (List.mem_append_left _ hx))
          fun x hx => hcancels x (List.mem_append_left _ hx)
      obtain ⟨hne, hlooping'⟩ := hlooping.turned hclosing
        (fun x hx => hserves x (List.mem_append_right _ hx))
        (fun x hx => hcancels x (List.mem_append_right _ hx)) hturn
      obtain ⟨z', rest', rfl⟩ := List.exists_cons_of_ne_nil hne
      exact ⟨_, z', rest', hlooping'⟩

/-! ## Whole walks -/

/-- A walk that does not arrive fails over the last record, after it has fetched each
record of the log once. -/
theorem Finished.looped {result : Except Failure (List Record)}
    (h : Looping log closing [] (y :: todo) [] w) (hsound : w.Sound) (hlimit : w.limit = none)
    (hclosing : closing = .first ∨ closing ∈ log.records.map (·.id))
    (hserves : ∀ x ∈ xs, log.serves closing x = true)
    (hcancels : ∀ x ∈ xs, cancels x = false)
    (hfinished : Finished w xs result) :
    result = .error (.protocol "SEL next record ID revisits an earlier record") ∧
      (xs.filter begins).map log.asked? = log.records.map some ∧
      (xs.filter completes).map log.asked? = log.records.map some := by
  cases hfinished with
  | arrived hwalked hdone =>
      obtain ⟨read, z, rest, hlooping⟩ := hwalked.looping h hclosing hserves hcancels
      rcases (hwalked.sound hsound).isLast_or_reachesLimit hdone with hlast | ⟨n, hn, -⟩
      · exact absurd hlast hlooping.cursor_ne_last
      · rw [hwalked.limit_eq, hlimit] at hn
        contradiction
  | @failed xs ys _ _ hwalked hdone hturn =>
      obtain ⟨read, z, rest, hlooping⟩ := hwalked.looping h hclosing
        (fun x hx => hserves x (List.mem_append_left ys hx))
        fun x hx => hcancels x (List.mem_append_left ys hx)
      obtain ⟨rfl, ls, zs, reservation, record, rfl, hls, hzs, hrecord, hback⟩ :=
        hlooping.exists_refused (fun x hx => hserves x (List.mem_append_right xs hx))
          (cancelsAtMost_of_none hcancels _) hturn
      cases rest with
      | cons z' rest => exact absurd hback.2 (hlooping.notMem_met hrecord)
      | nil =>
          have hread := hlooping.accepted hls hzs hrecord
          have hlog : log.records = read ++ [z] := hlooping.log_eq
          rw [hlog]
          exact ⟨rfl, hread.begun, hread.completed⟩

end Walk

/-- From a controller that serves a log whose last record names one of its records as the
one after it, or asks for the first, and that cancels nothing, the log is read to its end:
one fetch is begun and completed for each record, in order, and for none a second time.
Then the last record is refused. -/
theorem readLog_of_leadsBack {σ : Type} (log : Log) (closing : RecordId) (t : Transport σ)
    (s : σ) (maxRecoveries : Nat) (hne : log.records ≠ [])
    (hclosing : closing = .first ∨ closing ∈ log.records.map (·.id))
    (hserves : ∀ x ∈ ((readLog maxRecoveries).run t s).exchanges, log.serves closing x = true)
    (hcancels : ∀ x ∈ ((readLog maxRecoveries).run t s).exchanges, cancels x = false) :
    let r := (readLog maxRecoveries).run t s
    r.result = .error (.protocol "SEL next record ID revisits an earlier record") ∧
      (r.exchanges.filter begins).map log.asked? = log.records.map some ∧
      (r.exchanges.filter completes).map log.asked? = log.records.map some := by
  obtain ⟨y, rest, hlog⟩ := List.exists_cons_of_ne_nil hne
  exact (Walk.finished_run (Walk.start .first maxRecoveries) t s).looped
    (Walk.looping_start hlog) (Walk.sound_start .first maxRecoveries none) rfl hclosing hserves
    hcancels

/-! ## A log of three records -/

/-- Two records and a third, which is to name the second as the one after it. -/
def threeRecords : Log where
  records := Walk.twoRecords.records ++ [⟨⟨3⟩, 0xE0 :: List.replicate 13 9, rfl⟩]
  nodup := by decide
  ne_first := by decide
  ne_last := by decide

/-- The replies of a controller that holds this log and brings the second record in two
parts. -/
def leadingBack : List (Except Failure Response) :=
  [.ok ⟨0x00, [1, 0]⟩,
    .ok ⟨0x00, 2 :: 0 :: 1 :: 0 :: 0xE0 :: List.replicate 13 0⟩,
    .ok ⟨0x00, [3, 0, 2, 0, 0xE0]⟩,
    .ok ⟨0x00, 3 :: 0 :: List.replicate 13 7⟩,
    .ok ⟨0x00, 2 :: 0 :: 3 :: 0 :: 0xE0 :: List.replicate 13 9⟩]

/-- What such a controller is asked for. -/
def askedInTurn : List Command :=
  [.reserveSel,
    .getSelEntry (.whole ⟨1⟩ .first),
    .getSelEntry (.whole ⟨1⟩ ⟨2⟩),
    .getSelEntry (missingRead ⟨1⟩ ⟨2⟩ [2, 0, 0xE0]),
    .getSelEntry (.whole ⟨1⟩ ⟨3⟩)]

/-- The walk takes two turns and fails in the third. -/
theorem exchanges_leadingBack :
    ((readLog 0).run Script.transport (.start leadingBack [])).exchanges =
      (askedInTurn.map (·.request)).zipWith Exchange.mk leadingBack := by
  have hstart : readLog 0 = (Walk.start .first 0).finish := rfl
  rw [hstart,
    @Walk.run_finish_of_turn _ _
      ⟨⟨2⟩, [⟨1⟩, ⟨0⟩], some ⟨1⟩, 0, 0, none, [Walk.firstRecord], false⟩
      _ _ rfl (by with_unfolding_all rfl),
    @Walk.run_finish_of_turn _ _
      ⟨⟨3⟩, [⟨2⟩, ⟨2⟩, ⟨1⟩, ⟨0⟩], some ⟨1⟩, 0, 0, none,
        [Walk.firstRecord, Walk.secondRecord], false⟩ _ _ rfl (by with_unfolding_all rfl),
    Walk.finish_eq, if_neg Bool.false_ne_true,
    @Dialogue.run_andThen_of_error _ _ _ _ _ _ _
      (.protocol "SEL next record ID revisits an earlier record") (by with_unfolding_all rfl)]
  with_unfolding_all rfl

/-- Each of the three records is fetched once before the third is refused. -/
theorem readLog_threeRecords :
    let r := (readLog 0).run Script.transport (.start leadingBack [])
    (∀ x ∈ r.exchanges, threeRecords.serves ⟨2⟩ x = true) ∧
      (∀ x ∈ r.exchanges, cancels x = false) ∧
      r.result = .error (.protocol "SEL next record ID revisits an earlier record") ∧
      (r.exchanges.filter begins).map threeRecords.asked? = threeRecords.records.map some ∧
      (r.exchanges.filter completes).map threeRecords.asked? = threeRecords.records.map some := by
  intro r
  have hserves : ∀ x ∈ r.exchanges, threeRecords.serves ⟨2⟩ x = true := by
    rw [exchanges_leadingBack]
    decide
  have hcancels : ∀ x ∈ r.exchanges, cancels x = false := by
    rw [exchanges_leadingBack]
    decide
  exact ⟨hserves, hcancels, readLog_of_leadsBack threeRecords ⟨2⟩ _ _ 0 (List.cons_ne_nil _ _)
    (.inr (by decide)) hserves hcancels⟩

end Baseboard.Sel
