import Baseboard.Proofs.Sel.Look

/-!
# Baseboard.Proofs.Sel.Ending

How a fetch ends, seen from the wire and whatever the controller replies.  Each of
its exchanges reads from one record under one reservation.  All but the last go by
without event; the last completes the record, or loses the reservation, or fails.

`Ends` says this of a list of exchanges and a result.  Main statement: the exchanges
of a fetch end so (`Fetched.ends`).
-/

namespace Baseboard.Sel

variable {α β : Type} {reservation : Reservation} {id : RecordId}

/-! ## Reads -/

/-- Whether an exchange reads from a record. -/
def isRead (x : Exchange) : Bool := (EntryRead.ofRequest? x.request).isSome

/-- The record that an exchange reads from, if it reads. -/
def recordOf? (x : Exchange) : Option RecordId := (EntryRead.ofRequest? x.request).map (·.record)

/-- Whether an exchange is a read that loses its reservation. -/
def loses (x : Exchange) : Bool := isRead x && losesReservation x.reply

/-- Whether a result tells of a lost reservation. -/
def tellsOfLoss : Except Failure α → Bool
  | .ok _ => false
  | .error failure => failure.isReservationCancelled

@[simp] theorem tellsOfLoss_map (f : α → β) (result : Except Failure α) :
    tellsOfLoss (result.map f) = tellsOfLoss result := by
  cases result <;> rfl

@[simp] theorem isOk_map (f : α → β) (result : Except Failure α) :
    (result.map f).isOk = result.isOk := by
  cases result <;> rfl

section

variable {x : Exchange} {read : EntryRead}

theorem ofRequest?_of_performs {result : Except Failure Entry}
    (hx : x.Performs (.getSelEntry read) result) : EntryRead.ofRequest? x.request = some read := by
  rw [hx.request_eq, EntryRead.ofRequest?_request]

/-- A read loses its reservation just when its result says so. -/
theorem loses_of_performs {result : Except Failure Entry}
    (hx : x.Performs (.getSelEntry read) result) : loses x = tellsOfLoss result := by
  rw [loses, isRead, ofRequest?_of_performs hx, Option.isSome_some, Bool.true_and]
  cases result with
  | ok entry => exact losesReservation_of_ok hx
  | error failure => exact losesReservation_of_error hx

/-- A reservation neither completes nor loses anything. -/
theorem uneventful_of_reserves {result : Except Failure Reservation}
    (hx : x.Performs .reserveSel result) :
    isRead x = false ∧ completes x = false ∧ loses x = false := by
  simp [isRead, completes, loses, hx.request_eq]

/-- What a read that was answered brings. -/
theorem exists_reply_of_performs {entry : Entry}
    (hx : x.Performs (.getSelEntry read) (.ok entry)) :
    ∃ lo hi part, x.reply = .ok ⟨0x00, lo :: hi :: part⟩ ∧
      entry = ⟨⟨le16 lo hi⟩, part.take read.count.toNat⟩ := by
  obtain ⟨data, rest, hreply, hread⟩ := hx.exists_read?
  rcases data with _ | ⟨lo, _ | ⟨hi, part⟩⟩
  · contradiction
  · contradiction
  · cases hread
    exact ⟨lo, hi, part, hreply, rfl⟩

/-- A read that asks for the rest of its record completes it just when the bytes that
it brings reach the end. -/
theorem completes_of_ok {entry : Entry} (hx : x.Performs (.getSelEntry read) (.ok entry))
    (hrest : Record.size ≤ read.offset.toNat + read.count.toNat) :
    completes x = decide (Record.size ≤ read.offset.toNat + entry.data.length) := by
  obtain ⟨lo, hi, part, hreply, rfl⟩ := exists_reply_of_performs hx
  simp only [completes, ofRequest?_of_performs hx, hreply, List.length_take]
  exact decide_eq_decide.mpr (by omega)

theorem completes_of_error {failure : Failure}
    (hx : x.Performs (.getSelEntry read) (.error failure)) : completes x = false := by
  unfold completes
  split
  · next hreply =>
    have hok := hx.outcome_eq
    rw [hreply, Command.outcome_of_read? rfl] at hok
    contradiction
  · rfl

end

/-! ## The end of a fetch -/

/-- Exchanges of which the last brings about the result, and the others nothing:
it completes the record if the result is good, and loses the reservation if the
result says so. -/
def Ends (xs : List Exchange) (result : Except Failure α) : Prop :=
  ∃ front last, xs = front ++ [last] ∧
    (∀ x ∈ front, completes x = false ∧ loses x = false) ∧
    completes last = result.isOk ∧ loses last = tellsOfLoss result

theorem Ends.map {xs : List Exchange} {result : Except Failure α} (h : Ends xs result)
    (f : α → β) : Ends xs (result.map f) := by
  obtain ⟨front, last, hxs, hfront, hcompletes, hloses⟩ := h
  exact ⟨front, last, hxs, hfront, by rw [hcompletes, isOk_map],
    by rw [hloses, tellsOfLoss_map]⟩

/-- An exchange without event may be put in front. -/
theorem Ends.cons {xs : List Exchange} {result : Except Failure α} {x : Exchange}
    (h : Ends xs result) (hcompletes : completes x = false) (hloses : loses x = false) :
    Ends (x :: xs) result := by
  obtain ⟨front, last, rfl, hfront, hlast⟩ := h
  refine ⟨x :: front, last, rfl, ?_, hlast⟩
  exact List.forall_mem_cons.mpr ⟨⟨hcompletes, hloses⟩, hfront⟩

/-- No exchange completes the record when the result is a failure. -/
theorem Ends.filter_completes_of_error {xs : List Exchange} {failure : Failure}
    (h : Ends xs (.error failure : Except Failure α)) : xs.filter completes = [] := by
  obtain ⟨front, last, rfl, hfront, hcompletes, -⟩ := h
  refine List.filter_eq_nil_iff.mpr (List.forall_mem_append.mpr ⟨fun x hx => ?_, ?_⟩)
  · simp [hfront x hx]
  · simp [hcompletes, Except.isOk, Except.toBool]

/-- One exchange completes the record when the result is good. -/
theorem Ends.exists_filter_completes {xs : List Exchange} {value : α}
    (h : Ends xs (.ok value)) : ∃ last ∈ xs, xs.filter completes = [last] := by
  obtain ⟨front, last, rfl, hfront, hcompletes, -⟩ := h
  have hnone : front.filter completes = [] :=
    List.filter_eq_nil_iff.mpr fun x hx => by simp [hfront x hx]
  refine ⟨last, by simp, ?_⟩
  rw [List.filter_append, hnone, List.nil_append, List.filter_cons_of_pos hcompletes,
    List.filter_nil]

/-- A read that fails is the end. -/
theorem ends_of_error {x : Exchange} {read : EntryRead} {failure : Failure}
    (hx : x.Performs (.getSelEntry read) (.error failure)) :
    Ends [x] (.error failure : Except Failure α) :=
  ⟨[], x, rfl, by simp, completes_of_error hx, loses_of_performs hx⟩

/-- A record that is complete is not read on. -/
theorem Completion.of_size_le {data : List UInt8} {xs : List Exchange}
    {result : Except Failure (List UInt8)} (h : Completion reservation id data xs result)
    (hsize : Record.size ≤ data.length) : xs = [] ∧ result = .ok data := by
  cases h with
  | complete => exact ⟨rfl, rfl⟩
  | failed hlt => omega
  | stuck hlt => omega
  | more hlt => omega

/-- A read that is answered, of all that is missing after `known`, is the end if it
completes the record, and otherwise the end is that of the reads after it. -/
theorem Completion.ends_cons {known : List UInt8} {read : EntryRead} {x : Exchange}
    {entry : Entry} {xs : List Exchange} {result : Except Failure (List UInt8)}
    (hx : x.Performs (.getSelEntry read) (.ok entry)) (hoffset : read.offset.toNat = known.length)
    (hcount : Record.size - known.length ≤ read.count.toNat)
    (rest : Completion reservation id (known ++ entry.data) xs result)
    (ih : (known ++ entry.data).length < Record.size → Ends xs result) :
    Ends (x :: xs) result := by
  have hcompletes := completes_of_ok hx (by omega)
  rw [hoffset, ← List.length_append] at hcompletes
  by_cases hsize : Record.size ≤ (known ++ entry.data).length
  · obtain ⟨rfl, rfl⟩ := rest.of_size_le hsize
    rw [decide_eq_true hsize] at hcompletes
    exact ⟨[], x, rfl, by simp, hcompletes, loses_of_performs hx⟩
  · rw [decide_eq_false hsize] at hcompletes
    exact (ih (Nat.lt_of_not_le hsize)).cons hcompletes (loses_of_performs hx)

/-- The reads that complete a record end with it. -/
theorem Completion.ends {data : List UInt8} {xs : List Exchange}
    {result : Except Failure (List UInt8)} (h : Completion reservation id data xs result)
    (hsize : data.length < Record.size) : Ends xs result := by
  induction h with
  | complete hle => omega
  | failed _ hx => exact ends_of_error hx
  | @stuck data x entry _ hx hempty =>
      have hcompletes := completes_of_ok hx (by
        rw [toNat_offset_missingRead hsize, toNat_count_missingRead]
        omega)
      rw [toNat_offset_missingRead hsize, hempty, List.length_nil, Nat.add_zero,
        decide_eq_false (Nat.not_le.mpr hsize)] at hcompletes
      exact ⟨[], x, rfl, by simp, hcompletes, loses_of_performs hx⟩
  | more _ hx _ rest ih =>
      exact rest.ends_cons hx (toNat_offset_missingRead hsize)
        (Nat.le_of_eq (toNat_count_missingRead _).symm) ih

/-- The reads of a fetch end with it. -/
theorem Fetched.ends {xs : List Exchange} {result : Except Failure (RecordId × List UInt8)}
    (h : Fetched reservation id xs result) : Ends xs result := by
  cases h with
  | failed hx => exact ends_of_error hx
  | read hx rest =>
      have hcount : Record.size - ([] : List UInt8).length ≤ EntryRead.entireRecord.toNat := by
        decide
      exact (Completion.ends_cons hx rfl hcount rest rest.ends).map _

/-- Every exchange of a fetch reads from its record, under its reservation. -/
theorem Fetched.exists_read {xs : List Exchange}
    {result : Except Failure (RecordId × List UInt8)} (h : Fetched reservation id xs result) :
    ∀ x ∈ xs, ∃ read, EntryRead.ofRequest? x.request = some read ∧
      read.reservation = reservation ∧ read.record = id := by
  obtain ⟨x, rest, rfl, hwhole, -, hrest⟩ := h.exists_cons
  refine List.forall_mem_cons.mpr ⟨?_, fun y hy => ?_⟩
  · exact ⟨_, by rw [hwhole, EntryRead.ofRequest?_request], rfl, rfl⟩
  · obtain ⟨known, -, hmissing⟩ := hrest y hy
    exact ⟨_, by rw [hmissing, EntryRead.ofRequest?_request], rfl, rfl⟩

theorem Fetched.isRead {xs : List Exchange} {result : Except Failure (RecordId × List UInt8)}
    (h : Fetched reservation id xs result) : ∀ x ∈ xs, isRead x = true := by
  intro x hx
  obtain ⟨read, hread, -⟩ := h.exists_read x hx
  rw [Sel.isRead, hread, Option.isSome_some]

theorem Fetched.recordOf?_eq {xs : List Exchange}
    {result : Except Failure (RecordId × List UInt8)} (h : Fetched reservation id xs result) :
    ∀ x ∈ xs, recordOf? x = some id := by
  intro x hx
  obtain ⟨read, hread, -, hrecord⟩ := h.exists_read x hx
  rw [recordOf?, hread, Option.map_some, hrecord]

end Baseboard.Sel
