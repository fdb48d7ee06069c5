import Baseboard.Proofs.Sel.Chain
import Baseboard.Proofs.Sel.Service

/-!
# Baseboard.Proofs.Sel.Delivery

A walk against a controller that serves its log.  However the controller splits
the records, and wherever it cancels the reservation, the walk returns every
record from where it started to the end of the log, in order, as long as the
controller does not cancel too often in a row.

`OnTrack` is the invariant: the log falls into the records before the start, those
that the walk has read and those to come, and the walk asks for the first of the
latter.  Main statement: `finish_of_serves`.
-/

namespace Baseboard.Sel

/-- The identifier of a record stands in its first two bytes. -/
theorem Record.id_of_decode {b0 b1 : UInt8} {rest : List UInt8} {record : Record}
    (h : Record.decode (b0 :: b1 :: rest) = .ok record) : record.id = ⟨le16 b0 b1⟩ := by
  unfold Record.decode at h
  split at h
  · next heq =>
    cases heq
    split at h
    · cases h
      rfl
    · split at h <;> cases h <;> rfl
  · contradiction

theorem StoredRecord.id_of_decode {y : StoredRecord} {record : Record}
    (h : Record.decode y.bytes = .ok record) : record.id = y.id := by
  have hbytes : y.bytes = UInt8.ofNat y.id.number.toNat ::
      UInt8.ofNat (y.id.number.toNat / 256) :: y.body := rfl
  rw [hbytes] at h
  rw [Record.id_of_decode h, le16_toLE16]

/-- The most cancellations between two completed records: among exchanges in a row
that complete no record, so many cancel a reservation. -/
def CancelsAtMost (n : Nat) (xs : List Exchange) : Prop :=
  ∀ ys, ys <:+: xs → (∀ y ∈ ys, completes y = false) → ys.countP cancels ≤ n

namespace Walk

variable {w w' : Walk} {xs ys : List Exchange} {log : Log} {closing : RecordId}
  {skipped read todo : List StoredRecord}

/-- Reserving neither completes a record nor cancels a reservation. -/
theorem Reserved.completes_eq_false {reservation : Reservation} (h : Reserved w xs reservation) :
    (∀ x ∈ xs, completes x = false) ∧ xs.countP cancels = 0 := by
  cases h with
  | held => simp
  | made _ hx => simp [completes, cancels, hx.request_eq]

/-! ## The invariant -/

/-- Where a walk stands in the log: it skipped and read some records, others are to
do, and the cursor asks for the first of these. -/
structure OnTrack (log : Log) (closing : RecordId) (skipped read todo : List StoredRecord)
    (xs : List Exchange) (w : Walk) : Prop where
  log_eq : log.records = skipped ++ read ++ todo
  decoded : read.map (fun y => Record.decode y.bytes) = w.records.map .ok
  cursor : w.cursor = nextId closing todo ∨
    w.cursor = .first ∧ skipped = [] ∧ read = [] ∧ todo ≠ []
  visited : ∀ id ∈ w.visited, id = .first ∨ id ∈ read.map (·.id)
  /-- The losses since the last record are cancellations since then. -/
  streak : ∃ before streak, xs = before ++ streak ∧ (∀ x ∈ streak, completes x = false) ∧
    streak.countP cancels = w.recoveries

/-- The controller finds the record that the walk asks for. -/
theorem OnTrack.find?_cursor {y : StoredRecord}
    (h : OnTrack log closing skipped read (y :: todo) xs w) :
    log.find? closing w.cursor = some (y, nextId closing todo) := by
  refine Log.find?_eq_some h.log_eq ?_
  rcases h.cursor with hcursor | ⟨hfirst, rfl, rfl, -⟩
  · exact .inl hcursor
  · exact .inr ⟨hfirst, rfl⟩

/-- The record that comes next has an identifier of its own. -/
theorem OnTrack.id_ne {y z : StoredRecord} {rest : List StoredRecord}
    (h : OnTrack log closing skipped read (y :: z :: rest) xs w) :
    z.id ≠ .first ∧ z.id ≠ y.id ∧ z.id ∉ read.map (·.id) := by
  have hnodup := log.nodup
  rw [h.log_eq, List.map_append, List.map_append, List.nodup_append] at hnodup
  obtain ⟨-, htodo, hread⟩ := hnodup
  rw [List.map_cons, List.map_cons, List.nodup_cons] at htodo
  refine ⟨log.ne_first z (by simp [h.log_eq]), fun heq => htodo.1 ?_, fun hmem => ?_⟩
  · rw [← heq]
    exact List.mem_cons_self
  · exact hread _ (List.mem_append_right _ hmem) z.id (by simp) rfl

/-- A record that is not the last does not lead back to one that was met. -/
theorem OnTrack.notMem_met {y z : StoredRecord} {rest : List StoredRecord} {record : Record}
    (h : OnTrack log closing skipped read (y :: z :: rest) xs w)
    (hrecord : Record.decode y.bytes = .ok record) : z.id ∉ (w.meet record).visited := by
  intro hmem
  obtain ⟨hfirst, hy, hread⟩ := h.id_ne
  have hmem' : z.id ∈ record.id :: w.cursor :: w.visited := hmem
  rw [List.mem_cons, List.mem_cons, StoredRecord.id_of_decode hrecord] at hmem'
  rcases hmem' with heq | heq | hvisited
  · exact hy heq
  · rcases h.cursor with hcursor | ⟨hcursor, -⟩
    · exact hy (heq.trans hcursor)
    · exact hfirst (heq.trans hcursor)
  · rcases h.visited _ hvisited with heq | hmem
    · exact hfirst heq
    · exact hread hmem

/-- A log that ends does not lead back. -/
theorem OnTrack.not_leadsBack {y : StoredRecord} {record : Record}
    (h : OnTrack log .last skipped read (y :: todo) xs w)
    (hrecord : Record.decode y.bytes = .ok record) :
    ¬ (w.meet record).LeadsBack (nextId .last todo) := by
  rintro ⟨hne, hmem⟩
  cases todo with
  | nil => exact hne rfl
  | cons z rest => exact h.notMem_met hrecord hmem

/-! ## Turns on track -/

/-- A walk on track accepts the record that it asked for. -/
theorem OnTrack.accepted {y : StoredRecord} {reservation : Reservation} {record : Record}
    (h : OnTrack log closing skipped read (y :: todo) xs w)
    (hrecord : Record.decode y.bytes = .ok record) :
    OnTrack log closing skipped (read ++ [y]) todo (xs ++ ys)
      (w.accepted reservation record (nextId closing todo)) where
  log_eq := by rw [h.log_eq, List.append_assoc, List.append_assoc, List.append_assoc]; rfl
  decoded := by
    have hrecords : (w.accepted reservation record (nextId closing todo)).records =
        w.records ++ [record] := rfl
    rw [List.map_append, h.decoded, hrecords, List.map_append, List.map_singleton, hrecord]
    rfl
  cursor := .inl rfl
  visited id hid := by
    have hmem : id ∈ record.id :: w.cursor :: w.visited := hid
    rw [List.mem_cons, List.mem_cons, StoredRecord.id_of_decode hrecord] at hmem
    rw [List.map_append, List.mem_append]
    rcases hmem with heq | heq | hvisited
    · exact .inr (.inr (by simp [heq]))
    · rcases h.cursor with hcursor | ⟨hcursor, -⟩
      · exact .inr (.inr (by simp [heq, hcursor, nextId]))
      · exact .inl (heq.trans hcursor)
    · exact (h.visited id hvisited).imp_right .inl
  streak := ⟨xs ++ ys, [], by simp, by simp, rfl⟩

/-- A cancelled fetch leaves a walk on track, with one more loss in the streak. -/
theorem OnTrack.lost {ls : List Exchange} {reservation : Reservation}
    (h : OnTrack log closing skipped read todo xs w) (hls : Reserved w ls reservation)
    (hcount : ys.countP cancels = 1) (hcompletes : ∀ y ∈ ys, completes y = false) :
    OnTrack log closing skipped read todo (xs ++ (ls ++ ys)) w.lost where
  log_eq := h.log_eq
  decoded := h.decoded
  cursor := h.cursor
  visited := h.visited
  streak := by
    obtain ⟨before, streak, rfl, hstreak, hlosses⟩ := h.streak
    obtain ⟨hls', hzero⟩ := hls.completes_eq_false
    refine ⟨before, streak ++ (ls ++ ys), by simp, ?_, ?_⟩
    · intro x hx
      simp only [List.mem_append] at hx
      exact hx.elim (hstreak x) fun hx => hx.elim (hls' x) (hcompletes x)
    · rw [List.countP_append, List.countP_append, hlosses, hzero, hcount, Nat.zero_add]
      rfl

/-- What a walk on track fetches is delivered. -/
theorem OnTrack.delivered {y : StoredRecord} {ls : List Exchange} {reservation : Reservation}
    {result : Except Failure (RecordId × List UInt8)}
    (h : OnTrack log closing skipped read (y :: todo) xs w)
    (hserves : ∀ x ∈ ls ++ ys, log.serves closing x = true)
    (hys : Fetched reservation w.cursor ys result) :
    Delivered (nextId closing todo, y.bytes) ys result :=
  log.fetched_of_serves h.find?_cursor (fun x hx => hserves x (List.mem_append_right ls hx)) hys

/-- A turn that goes on keeps a walk on track. -/
theorem OnTrack.turned {y : StoredRecord} (h : OnTrack log closing skipped read (y :: todo) xs w)
    (hserves : ∀ x ∈ ys, log.serves closing x = true) (hturn : Turned w ys (.ok w')) :
    ∃ read' todo', OnTrack log closing skipped read' todo' (xs ++ ys) w' := by
  cases hturn with
  | accepted hls hzs hrecord _ =>
      obtain ⟨rfl, rfl⟩ := Prod.mk.inj (h.delivered hserves hzs).eq_whole
      exact ⟨_, _, h.accepted hrecord⟩
  | lost hls hzs _ _ =>
      obtain ⟨-, hcount, hcompletes⟩ := (h.delivered hserves hzs).of_error
      exact ⟨_, _, h.lost hls hcount hcompletes⟩

/-- A turn fails on track only over a record that leads back, unless the controller
cancels too often in a row. -/
theorem OnTrack.exists_refused {y : StoredRecord} {failure : Failure}
    (h : OnTrack log closing skipped read (y :: todo) xs w)
    (hserves : ∀ x ∈ ys, log.serves closing x = true)
    (hcancels : CancelsAtMost w.maxRecoveries (xs ++ ys)) (hturn : Turned w ys (.error failure)) :
    failure = .protocol "SEL next record ID revisits an earlier record" ∧
      ∃ ls zs reservation record, ys = ls ++ zs ∧ Reserved w ls reservation ∧
        Fetched reservation w.cursor zs (.ok (nextId closing todo, y.bytes)) ∧
        Record.decode y.bytes = .ok record ∧
        (w.meet record).LeadsBack (nextId closing todo) := by
  cases hturn with
  | unreserved _ hx =>
      obtain ⟨reservation, hgranted⟩ :=
        log.reserves_of_serves (hserves _ List.mem_cons_self) hx
      cases hgranted
  | refused hls hzs hrecord hback =>
      obtain ⟨rfl, rfl⟩ := Prod.mk.inj (h.delivered hserves hzs).eq_whole
      exact ⟨rfl, _, _, _, _, rfl, hls, hzs, hrecord, hback⟩
  | @spent ls zs _ _ hls hzs _ hbudget =>
      obtain ⟨-, hcount, hcompletes⟩ := (h.delivered hserves hzs).of_error
      obtain ⟨before, streak, hxs, hstreak, hlosses⟩ := (h.lost hls hcount hcompletes).streak
      have hle := hcancels streak (hxs ▸ (List.suffix_append before streak).isInfix) hstreak
      rw [hlosses] at hle
      exact absurd hle (Nat.not_le.mpr (Nat.lt_succ_of_le hbudget))
  | failed hls hzs hcancel =>
      obtain ⟨hcancel', -⟩ := (h.delivered hserves hzs).of_error
      rw [hcancel] at hcancel'
      contradiction

/-- No turn fails on track of a log that ends, unless the controller cancels too often in
a row. -/
theorem OnTrack.not_failed {y : StoredRecord} {failure : Failure}
    (h : OnTrack log .last skipped read (y :: todo) xs w)
    (hserves : ∀ x ∈ ys, log.serves .last x = true)
    (hcancels : CancelsAtMost w.maxRecoveries (xs ++ ys)) :
    ¬ Turned w ys (.error failure) := by
  intro hturn
  obtain ⟨-, _, _, _, _, -, -, -, hrecord, hback⟩ := h.exists_refused hserves hcancels hturn
  exact h.not_leadsBack hrecord hback

/-! ## Whole walks -/

/-- A walk on track that asks for a record has records to do. -/
theorem OnTrack.exists_cons (h : OnTrack log .last skipped read todo xs w)
    (hcursor : w.cursor ≠ .last) : ∃ y rest, todo = y :: rest := by
  cases todo with
  | nil =>
      rcases h.cursor with hlast | ⟨-, -, -, hne⟩
      · exact absurd hlast hcursor
      · exact absurd rfl hne
  | cons y rest => exact ⟨y, rest, rfl⟩

/-- A walk on track that has records to do asks for one. -/
theorem OnTrack.cursor_ne_last {y : StoredRecord}
    (h : OnTrack log closing skipped read (y :: todo) xs w) : w.cursor ≠ .last := by
  intro hlast
  rcases h.cursor with hy | ⟨hfirst, -⟩
  · exact log.ne_last y (by simp [h.log_eq]) (hy.symm.trans hlast)
  · rw [hlast] at hfirst
    contradiction

/-- A walk on track that asks for nothing more has read all records. -/
theorem OnTrack.todo_eq_nil (h : OnTrack log .last skipped read todo xs w)
    (hcursor : w.cursor = .last) : todo = [] := by
  cases todo with
  | nil => rfl
  | cons y rest => exact absurd hcursor h.cursor_ne_last

theorem Walked.onTrack (hsound : w.Sound) (h : OnTrack log .last skipped [] todo [] w)
    (hwalked : Walked w xs w') (hserves : ∀ x ∈ xs, log.serves .last x = true) :
    ∃ read todo', OnTrack log .last skipped read todo' xs w' := by
  induction hwalked with
  | start => exact ⟨[], todo, h⟩
  | turn hwalked hdone hturn ih =>
      obtain ⟨read, todo', htrack⟩ := ih fun x hx => hserves x (List.mem_append_left _ hx)
      obtain ⟨y, rest, rfl⟩ :=
        htrack.exists_cons ((hwalked.sound hsound).cursor_ne_last hdone)
      exact htrack.turned (fun x hx => hserves x (List.mem_append_right _ hx)) hturn

/-- A whole walk that starts on track arrives, and is on track when it does. -/
theorem Finished.exists_onTrack {result : Except Failure (List Record)} (hsound : w.Sound)
    (h : OnTrack log .last skipped [] todo [] w) (hserves : ∀ x ∈ xs, log.serves .last x = true)
    (hcancels : CancelsAtMost w.maxRecoveries xs) (hfinished : Finished w xs result) :
    ∃ w' read todo', Walked w xs w' ∧ w'.done = true ∧ result = .ok w'.records ∧
      OnTrack log .last skipped read todo' xs w' := by
  cases hfinished with
  | @arrived _ w' hwalked hdone =>
      obtain ⟨read, todo', htrack⟩ := hwalked.onTrack hsound h hserves
      exact ⟨w', read, todo', hwalked, hdone, rfl, htrack⟩
  | @failed xs ys w' _ hwalked hdone hturn =>
      obtain ⟨read, todo', htrack⟩ :=
        hwalked.onTrack hsound h fun x hx => hserves x (List.mem_append_left ys hx)
      obtain ⟨y, rest, rfl⟩ := htrack.exists_cons ((hwalked.sound hsound).cursor_ne_last hdone)
      rw [← hwalked.maxRecoveries_eq] at hcancels
      exact absurd hturn
        (htrack.not_failed (fun x hx => hserves x (List.mem_append_right xs hx)) hcancels)

/-- What was to do at the start is what was read since and what is still to do. -/
theorem OnTrack.todo_eq_append {todo' : List StoredRecord}
    (h : OnTrack log closing skipped [] todo [] w)
    (h' : OnTrack log closing skipped read todo' xs w') : todo = read ++ todo' := by
  have heq := h.log_eq.symm.trans h'.log_eq
  rw [List.append_nil, List.append_assoc] at heq
  exact List.append_cancel_left heq

/-- A whole walk that starts on track, and has no limit, reads all records. -/
theorem Finished.eq_ok {result : Except Failure (List Record)} (hsound : w.Sound)
    (hlimit : w.limit = none) (h : OnTrack log .last skipped [] todo [] w)
    (hserves : ∀ x ∈ xs, log.serves .last x = true)
    (hcancels : CancelsAtMost w.maxRecoveries xs)
    (hfinished : Finished w xs result) :
    ∃ records, todo.map (fun y => Record.decode y.bytes) = records.map .ok ∧
      result = .ok records := by
  obtain ⟨w', read, todo', hwalked, hdone, hresult, htrack⟩ :=
    hfinished.exists_onTrack hsound h hserves hcancels
  have hlast : w'.cursor = .last := by
    rcases (hwalked.sound hsound).isLast_or_reachesLimit hdone with hlast | ⟨n, hn, -⟩
    · exact hlast
    · rw [hwalked.limit_eq, hlimit] at hn
      contradiction
  have hread : todo = read := by
    rw [h.todo_eq_append htrack, htrack.todo_eq_nil hlast, List.append_nil]
  exact ⟨w'.records, hread ▸ htrack.decoded, hresult⟩

theorem onTrack_start {start : RecordId} {maxRecoveries : Nat} {y : StoredRecord}
    (hlog : log.records = skipped ++ y :: todo)
    (hstart : start = y.id ∨ start = .first ∧ skipped = []) :
    OnTrack log closing skipped [] (y :: todo) [] (Walk.start start maxRecoveries) where
  log_eq := by rw [hlog, List.append_nil]
  decoded := rfl
  cursor := hstart.imp_right fun h => ⟨h.1, h.2, rfl, List.cons_ne_nil _ _⟩
  visited := by simp [Walk.start]
  streak := ⟨[], [], rfl, by simp, rfl⟩

/-- A walk against a controller that serves its log, and does not cancel too often
between two records, returns the records from the start on, in the order of the
log. -/
theorem finish_of_serves {σ : Type} (log : Log) (t : Transport σ) (s : σ) (start : RecordId)
    (maxRecoveries : Nat) (before : List StoredRecord) (y : StoredRecord)
    (rest : List StoredRecord) (hlog : log.records = before ++ y :: rest)
    (hstart : start = y.id ∨ start = .first ∧ before = [])
    (hserves : ∀ x ∈ ((Walk.start start maxRecoveries).finish.run t s).exchanges,
      log.serves .last x = true)
    (hcancels : CancelsAtMost maxRecoveries
      ((Walk.start start maxRecoveries).finish.run t s).exchanges) :
    ∃ records, (y :: rest).map (fun z => Record.decode z.bytes) = records.map .ok ∧
      ((Walk.start start maxRecoveries).finish.run t s).result = .ok records :=
  (finished_run (Walk.start start maxRecoveries) t s).eq_ok
    (sound_start start maxRecoveries none) rfl (onTrack_start hlog hstart) hserves hcancels

/-- A log of two records. -/
def twoRecords : Log where
  records :=
    [⟨⟨1⟩, 0xE0 :: List.replicate 13 0, rfl⟩,
      ⟨⟨2⟩, 0xE0 :: List.replicate 13 7, rfl⟩]
  nodup := by decide
  ne_first := by decide
  ne_last := by decide

/-- A controller that holds them may cancel a reservation once. -/
theorem finish_twoRecords :
    let r := (Walk.start .first 1).finish.run Script.transport (.start cancelledOnce [])
    (∀ x ∈ r.exchanges, twoRecords.serves .last x = true) ∧ CancelsAtMost 1 r.exchanges ∧
      ∃ records, twoRecords.records.map (fun z => Record.decode z.bytes) = records.map .ok ∧
        r.result = .ok records := by
  intro r
  have hserves : ∀ x ∈ r.exchanges, twoRecords.serves .last x = true := by
    rw [run_cancelledOnce.2]
    decide
  have hcount : r.exchanges.countP cancels = 1 := by
    rw [run_cancelledOnce.2]
    decide
  have hcancels : CancelsAtMost 1 r.exchanges := by
    intro ys hys _
    rw [← hcount]
    exact hys.sublist.countP_le
  exact ⟨hserves, hcancels,
    finish_of_serves twoRecords _ _ .first 1 [] _ _ rfl (.inr ⟨rfl, rfl⟩) hserves hcancels⟩

end Walk

end Baseboard.Sel
