import Baseboard.Proofs.Sel.Chain
import Mathlib.Data.List.Perm.Subperm
import Mathlib.Data.List.TakeWhile

/-!
# Baseboard.Proofs.Sel.Bounds

How much a walk can send, whatever the controller replies.

Every accepted record uses up an identifier, and no more than 65535 identifiers
can be asked for.  Between two accepted records at most as many reservations are
lost as the walk may recover from, and each of them costs one fetch and one
reservation.  A fetch is short because every read but its last brings a byte.

`Tally` is the invariant that counts fetches and reservations against accepted
records and losses.  Main statement: `finish_bounded`.
-/

namespace Baseboard.Sel

/-! ## Fetches among requests -/

/-- Whether a request asks for a whole record: every fetch starts so. -/
def startsFetch (r : Request) : Bool :=
  (EntryRead.ofRequest? r).any fun read => read.count = EntryRead.entireRecord

/-- Whether a request asks for part of a record. -/
def continuesFetch (r : Request) : Bool :=
  (EntryRead.ofRequest? r).any fun read => read.count ≠ EntryRead.entireRecord

/-- The fetches among some requests: each starts with a read of a whole record and
goes on with the reads of parts right after it. -/
def fetches : List Request → List (List Request)
  | [] => []
  | r :: rs =>
    if startsFetch r then (r :: rs.takeWhile continuesFetch) :: fetches rs else fetches rs

/-- Requests that do not start with the read of a part add their own fetches. -/
theorem fetches_append {rs qs : List Request}
    (h : ∀ q ∈ qs.head?, continuesFetch q = false) :
    fetches (rs ++ qs) = fetches rs ++ fetches qs := by
  have hqs : qs.takeWhile continuesFetch = [] := by
    cases qs with
    | nil => rfl
    | cons q qs => simp [h q rfl]
  induction rs with
  | nil => rfl
  | cons r rs ih =>
      have htake : (rs ++ qs).takeWhile continuesFetch = rs.takeWhile continuesFetch := by
        rw [List.takeWhile_append, hqs]
        split
        · next hall =>
          rw [List.append_nil]
          exact ((List.takeWhile_prefix _).eq_of_length hall).symm
        · rfl
      rw [List.cons_append, fetches, fetches, ih, htake]
      split <;> rfl

/-- The read of a part starts no fetch. -/
theorem startsFetch_of_continuesFetch {r : Request} (h : continuesFetch r = true) :
    startsFetch r = false := by
  unfold continuesFetch at h
  unfold startsFetch
  cases hread : EntryRead.ofRequest? r <;> simp_all

theorem fetches_of_continues {rs : List Request} (h : ∀ r ∈ rs, continuesFetch r = true) :
    fetches rs = [] := by
  induction rs with
  | nil => rfl
  | cons r rs ih =>
      have hr : startsFetch r = false := startsFetch_of_continuesFetch (h r List.mem_cons_self)
      rw [fetches, hr, if_neg Bool.false_ne_true]
      exact ih fun q hq => h q (List.mem_cons_of_mem r hq)

theorem startsFetch_whole (reservation : Reservation) (id : RecordId) :
    startsFetch (Command.getSelEntry (.whole reservation id)).request = true := by
  simp [startsFetch, EntryRead.whole]

/-- A part of a record is never asked for with the count that means all of it. -/
theorem continuesFetch_missingRead (reservation : Reservation) (id : RecordId)
    (known : List UInt8) :
    continuesFetch (Command.getSelEntry (missingRead reservation id known)).request = true := by
  have hcount : (missingRead reservation id known).count ≠ EntryRead.entireRecord := by
    intro h
    have htoNat : (missingRead reservation id known).count.toNat = Record.size - known.length :=
      toNat_count_missingRead known
    rw [h] at htoNat
    simp only [EntryRead.entireRecord, Record.size, UInt8.toNat_ofNat] at htoNat
    omega
  simpa [continuesFetch] using hcount

/-! ## Requests in order -/

/-- How many requests ask for a reservation. -/
def reservations (rs : List Request) : Nat := rs.count Command.reserveSel.request

/-- Requests that are all accounted for: each reserves the log or belongs to a
fetch, and no fetch is long. -/
structure Orderly (rs : List Request) : Prop where
  starts : ∀ r ∈ rs.head?, continuesFetch r = false
  length_le : ∀ f ∈ fetches rs, f.length ≤ 17
  length_eq : rs.length = (fetches rs).flatten.length + reservations rs

theorem orderly_nil : Orderly [] := ⟨by simp, by simp [fetches], rfl⟩

theorem Orderly.append {rs qs : List Request} (hrs : Orderly rs) (hqs : Orderly qs) :
    Orderly (rs ++ qs) := by
  have hfetches : fetches (rs ++ qs) = fetches rs ++ fetches qs := fetches_append hqs.starts
  refine ⟨?_, ?_, ?_⟩
  · cases rs with
    | nil => exact hqs.starts
    | cons r rs => exact hrs.starts
  · intro f hf
    rw [hfetches] at hf
    exact (List.mem_append.mp hf).elim (hrs.length_le f) (hqs.length_le f)
  · have hlength := hrs.length_eq
    have hlength' := hqs.length_eq
    rw [hfetches, List.flatten_append, List.length_append, List.length_append, reservations,
      List.count_append]
    unfold reservations at hlength hlength'
    omega

theorem orderly_reserveSel : Orderly [Command.reserveSel.request] where
  starts := by simp [continuesFetch]
  length_le := by simp [fetches, startsFetch]
  length_eq := by simp [fetches, startsFetch, reservations]

/-- The requests of one fetch, seen from the wire. -/
theorem fetches_of_fetched {reservation : Reservation} {id : RecordId} {xs : List Exchange}
    {result : Except Failure (RecordId × List UInt8)} (h : Fetched reservation id xs result) :
    fetches (xs.map (·.request)) = [xs.map (·.request)] := by
  obtain ⟨x, rest, rfl, hx, -, hrest⟩ := h.exists_cons
  have hcontinues : ∀ r ∈ rest.map (·.request), continuesFetch r = true := by
    intro r hr
    obtain ⟨y, hy, rfl⟩ := List.mem_map.mp hr
    obtain ⟨known, -, hknown⟩ := hrest y hy
    rw [hknown]
    exact continuesFetch_missingRead reservation id known
  have htake : (rest.map (·.request)).takeWhile continuesFetch = rest.map (·.request) :=
    List.takeWhile_eq_self_iff.mpr hcontinues
  rw [List.map_cons, fetches, hx, startsFetch_whole, if_pos rfl, htake,
    fetches_of_continues hcontinues]

/-- A fetch reserves nothing. -/
theorem reservations_of_fetched {reservation : Reservation} {id : RecordId} {xs : List Exchange}
    {result : Except Failure (RecordId × List UInt8)} (h : Fetched reservation id xs result) :
    reservations (xs.map (·.request)) = 0 := by
  obtain ⟨x, rest, rfl, hx, -, hrest⟩ := h.exists_cons
  refine List.count_eq_zero_of_not_mem fun hmem => ?_
  have hread : ∃ read, Command.reserveSel.request = (Command.getSelEntry read).request := by
    rcases List.mem_cons.mp hmem with heq | hmem
    · exact ⟨_, heq.trans hx⟩
    · obtain ⟨y, hy, heq⟩ := List.mem_map.mp hmem
      obtain ⟨known, -, hknown⟩ := hrest y hy
      exact ⟨_, heq.symm.trans hknown⟩
  obtain ⟨read, hread⟩ := hread
  have hnone := congrArg EntryRead.ofRequest? hread
  simp at hnone

theorem orderly_of_fetched {reservation : Reservation} {id : RecordId} {xs : List Exchange}
    {result : Except Failure (RecordId × List UInt8)} (h : Fetched reservation id xs result) :
    Orderly (xs.map (·.request)) := by
  have hfetches := fetches_of_fetched h
  have hreservations := reservations_of_fetched h
  refine ⟨?_, ?_, ?_⟩
  · obtain ⟨x, rest, rfl, hx, -⟩ := h.exists_cons
    intro r hr
    rw [List.map_cons, List.head?_cons, Option.mem_some_iff] at hr
    rw [← hr, hx]
    simp [continuesFetch, EntryRead.whole]
  · intro f hf
    rw [hfetches, List.mem_singleton] at hf
    obtain ⟨x, rest, rfl, -, hlength, -⟩ := h.exists_cons
    rw [hf, List.length_map, List.length_cons]
    exact Nat.succ_le_succ hlength
  · rw [hfetches, hreservations]
    simp

namespace Walk

variable {w w' : Walk} {xs ys : List Exchange}

/-- A walk asks for a reservation once if it holds none. -/
def toReserve (w : Walk) : Nat := if w.reservation.isNone then 1 else 0

theorem Reserved.orderly {reservation : Reservation} (h : Reserved w xs reservation) :
    Orderly (xs.map (·.request)) ∧ fetches (xs.map (·.request)) = [] ∧
      reservations (xs.map (·.request)) = w.toReserve := by
  cases h with
  | held h => exact ⟨orderly_nil, rfl, by simp [reservations, toReserve, h]⟩
  | made h hx =>
      rw [List.map_singleton, hx.request_eq]
      exact ⟨orderly_reserveSel, by simp [fetches, startsFetch],
        by simp [reservations, toReserve, h]⟩

/-- A turn sends at most one fetch, after the reservation that it needs. -/
theorem Turned.orderly {result : Except Failure Walk} (h : Turned w ys result) :
    Orderly (ys.map (·.request)) ∧ (fetches (ys.map (·.request))).length ≤ 1 ∧
      reservations (ys.map (·.request)) = w.toReserve := by
  rcases h.exists_fetched with ⟨x, rfl, hnone, hx⟩ | ⟨ls, xs, _, _, rfl, hls, hxs⟩
  · rw [List.map_singleton, hx]
    exact ⟨orderly_reserveSel, by simp [fetches, startsFetch],
      by simp [reservations, toReserve, hnone]⟩
  · obtain ⟨horderly, hfetches, hreservations⟩ := hls.orderly
    have hxs' := orderly_of_fetched hxs
    rw [List.map_append]
    refine ⟨horderly.append hxs', ?_, ?_⟩
    · rw [fetches_append hxs'.starts, hfetches, fetches_of_fetched hxs]
      simp
    · have hzero := reservations_of_fetched hxs
      unfold reservations at hreservations hzero ⊢
      rw [List.count_append, hreservations, hzero, Nat.add_zero]

/-! ## Counting turns -/

/-- What a walk has sent at most, counted by the records that it accepted and the
reservations that it lost since. -/
structure Tally (w : Walk) (rs : List Request) : Prop where
  orderly : Orderly rs
  fetches_le : (fetches rs).length ≤ w.records.length * (w.maxRecoveries + 1) + w.recoveries
  reservations_le :
    reservations rs + w.toReserve ≤ w.records.length * w.maxRecoveries + w.recoveries + 1
  recoveries_eq_zero : w.done = true → w.recoveries = 0

/-- A turn that accepts a record makes the losses before it count as its own. -/
theorem Tally.accepted {rs qs : List Request} {reservation : Reservation} {record : Record}
    {next : RecordId} (h : w.Tally rs) (hsound : w.Sound) (hqs : Orderly qs)
    (hfetches : (fetches qs).length ≤ 1) (hreservations : reservations qs = w.toReserve) :
    (w.accepted reservation record next).Tally (rs ++ qs) := by
  have hrecoveries := hsound.recoveries_le
  have hlength : (w.accepted reservation record next).records.length = w.records.length + 1 := by
    simp [Walk.accepted, moveOn, meet, Walk.reserved]
  have hmax : (w.accepted reservation record next).maxRecoveries = w.maxRecoveries := rfl
  have hzero : (w.accepted reservation record next).recoveries = 0 := rfl
  have hheld : (w.accepted reservation record next).toReserve = 0 := rfl
  refine ⟨h.orderly.append hqs, ?_, ?_, fun _ => hzero⟩
  · have hle := h.fetches_le
    rw [fetches_append hqs.starts, List.length_append, hlength, hmax, hzero, Nat.succ_mul]
    omega
  · have hle := h.reservations_le
    rw [hlength, hmax, hzero, hheld, Nat.succ_mul]
    unfold reservations at *
    rw [List.count_append]
    omega

/-- A turn that loses a reservation costs a fetch, and a reservation to come. -/
theorem Tally.lost {rs qs : List Request} (h : w.Tally rs) (hdone : w.done = false)
    (hqs : Orderly qs) (hfetches : (fetches qs).length ≤ 1)
    (hreservations : reservations qs = w.toReserve) : w.lost.Tally (rs ++ qs) := by
  have hrecords : w.lost.records = w.records := rfl
  have hmax : w.lost.maxRecoveries = w.maxRecoveries := rfl
  have hsucc : w.lost.recoveries = w.recoveries + 1 := rfl
  have hneeds : w.lost.toReserve = 1 := rfl
  refine ⟨h.orderly.append hqs, ?_, ?_, ?_⟩
  · have hle := h.fetches_le
    rw [fetches_append hqs.starts, List.length_append, hrecords, hmax, hsucc]
    omega
  · have hle := h.reservations_le
    rw [hrecords, hmax, hsucc, hneeds]
    unfold reservations at *
    rw [List.count_append]
    omega
  · intro hdone'
    have hfalse : w.done = true := hdone'
    rw [hdone] at hfalse
    contradiction

/-- Turns keep the tally. -/
theorem Walked.tally (htally : w.Tally []) (hsound : w.Sound) (hwalked : Walked w xs w') :
    w'.Tally (xs.map (·.request)) := by
  induction hwalked with
  | start => exact htally
  | turn hwalked hdone hturn ih =>
      obtain ⟨horderly, hfetches, hreservations⟩ := hturn.orderly
      rw [List.map_append]
      cases hturn with
      | accepted => exact ih.accepted (hwalked.sound hsound) horderly hfetches hreservations
      | lost => exact ih.lost hdone horderly hfetches hreservations

theorem tally_start (start : RecordId) (maxRecoveries : Nat) (limit : Option Nat) :
    ((Walk.start start maxRecoveries).limited limit).Tally [] := by
  have hle (maxRecoveries : Nat) : 0 + 1 ≤ 0 * maxRecoveries + 0 + 1 := by omega
  cases limit <;> exact ⟨orderly_nil, Nat.zero_le _, hle maxRecoveries, fun _ => rfl⟩

/-! ## Running out of identifiers -/

/-- No more than 65535 different identifiers can be asked for. -/
theorem length_le_of_nodup {ids : List RecordId} (hnodup : ids.Nodup) (hlast : .last ∉ ids) :
    ids.length ≤ 65535 := by
  have hsubset : RecordId.last :: ids ⊆ allIds := fun id _ => mem_allIds id
  have hsubperm := List.subperm_of_subset (List.nodup_cons.mpr ⟨hlast, hnodup⟩) hsubset
  have hlength : allIds.length = 65536 := by
    rw [allIds, List.length_map, List.length_range]
  have hle := hsubperm.length_le
  rw [List.length_cons, hlength] at hle
  omega

/-- A walk accepts at most 65535 records, and one fewer as long as it goes on. -/
theorem Walked.length_records_le (hsound : w.Sound) (hrecords : w.records = [])
    (hwalked : Walked w xs w') :
    w'.records.length ≤ 65535 ∧ (w'.done = false → w'.records.length + 1 ≤ 65535) := by
  obtain ⟨visits, detour, htrail⟩ := hwalked.exists_trail hsound hrecords
  have hlength : w'.records.length = (visits.map (·.cursor)).length := by
    rw [htrail.records_eq, List.length_map, List.length_map]
  have hlast : .last ∉ visits.map (·.cursor) := by
    intro hmem
    obtain ⟨v, hv, heq⟩ := List.mem_map.mp hmem
    exact htrail.ne_last v hv heq
  refine ⟨hlength ▸ length_le_of_nodup htrail.nodup hlast, fun hdone => ?_⟩
  have hcursor : w'.cursor ∉ visits.map (·.cursor) := by
    intro hmem
    obtain ⟨v, hv, heq⟩ := List.mem_map.mp hmem
    exact (hwalked.sound hsound).cursor_notMem_visited hdone (heq ▸ htrail.visited v hv)
  have hle := length_le_of_nodup (List.nodup_cons.mpr ⟨hcursor, htrail.nodup⟩) (by
    rw [List.mem_cons, not_or]
    exact ⟨((hwalked.sound hsound).cursor_ne_last hdone).symm, hlast⟩)
  rw [hlength]
  rwa [List.length_cons] at hle

/-! ## Whole walks -/

/-- The requests of a whole walk are accounted for and bounded in number. -/
theorem Finished.orderly {result : Except Failure (List Record)} (hsound : w.Sound)
    (hrecords : w.records = []) (htally : w.Tally []) (h : Finished w xs result) :
    Orderly (xs.map (·.request)) ∧
      (fetches (xs.map (·.request))).length ≤ 65535 * (w.maxRecoveries + 1) ∧
      reservations (xs.map (·.request)) ≤ 65535 * w.maxRecoveries + 1 := by
  cases h with
  | @arrived _ w' hwalked hdone =>
      have htally' := hwalked.tally htally hsound
      have hlength := (hwalked.length_records_le hsound hrecords).1
      have hfetches := htally'.fetches_le
      have hreservations := htally'.reservations_le
      rw [htally'.recoveries_eq_zero hdone, hwalked.maxRecoveries_eq] at hfetches hreservations
      have hmul := Nat.mul_le_mul_right (w.maxRecoveries + 1) hlength
      have hmul' := Nat.mul_le_mul_right w.maxRecoveries hlength
      exact ⟨htally'.orderly, by omega, by omega⟩
  | @failed xs ys w' _ hwalked hdone hturn =>
      have htally' := hwalked.tally htally hsound
      have hlength := (hwalked.length_records_le hsound hrecords).2 hdone
      have hrecoveries := (hwalked.sound hsound).recoveries_le
      have hfetches := htally'.fetches_le
      have hreservations := htally'.reservations_le
      obtain ⟨hys, hone, hreserve⟩ := hturn.orderly
      rw [hwalked.maxRecoveries_eq] at hfetches hreservations hrecoveries
      have hmul := Nat.mul_le_mul_right (w.maxRecoveries + 1) hlength
      have hmul' := Nat.mul_le_mul_right w.maxRecoveries hlength
      rw [Nat.succ_mul] at hmul hmul'
      rw [List.map_append]
      refine ⟨htally'.orderly.append hys, ?_, ?_⟩
      · rw [fetches_append hys.starts, List.length_append]
        omega
      · unfold reservations at *
        rw [List.count_append]
        omega

/-- A fresh walk ends after a bounded number of requests, whatever the controller
replies.  The walks that it can become accept at most 65535 records and never lose
more reservations in a row than allowed, so the count of losses never passes its
maximum. -/
theorem finish_bounded {σ : Type} (t : Transport σ) (s : σ) (start : RecordId)
    (maxRecoveries : Nat) (limit : Option Nat) :
    let w := (Walk.start start maxRecoveries).limited limit
    let r := w.finish.run t s
    let sent := Dialogue.requests r.events
    Finished w r.exchanges r.result ∧
      (∀ xs w', Walked w xs w' →
        w'.records.length ≤ 65535 ∧ w'.recoveries ≤ maxRecoveries) ∧
      (fetches sent).length ≤ 65535 * (maxRecoveries + 1) ∧
      (∀ f ∈ fetches sent, f.length ≤ 17) ∧
      reservations sent ≤ 65535 * maxRecoveries + 1 ∧
      sent.length = (fetches sent).flatten.length + reservations sent := by
  intro w r sent
  have hsound : w.Sound := sound_start start maxRecoveries limit
  have hrecords : w.records = [] := records_limited _ _
  have hmax : w.maxRecoveries = maxRecoveries := maxRecoveries_limited _ _
  have hfinished : Finished w r.exchanges r.result := finished_run w t s
  have hsent : sent = r.exchanges.map (·.request) := Dialogue.requests_eq_map_exchanges r.events
  obtain ⟨horderly, hfetches, hreservations⟩ :=
    hfinished.orderly hsound hrecords (tally_start start maxRecoveries limit)
  rw [← hsent] at horderly hfetches hreservations
  rw [hmax] at hfetches hreservations
  refine ⟨hfinished, ?_, hfetches, horderly.length_le, hreservations, horderly.length_eq⟩
  intro xs w' hwalked
  have hle := (hwalked.sound hsound).recoveries_le
  rw [hwalked.maxRecoveries_eq, hmax] at hle
  exact ⟨(hwalked.length_records_le hsound hrecords).1, hle⟩

end Walk

end Baseboard.Sel
