import Baseboard.Proofs.Exchange
import Baseboard.Sel.Reading

/-!
# Baseboard.Proofs.Sel.Fetch

What the controller sees of the fetch of one record, and what the fetch makes of
the replies, apart from any transport: a read of the whole record, then reads of
what is still missing, each as long as the record is not complete.

`Completion` and `Fetched` say this over a list of exchanges.  Main statement:
every run of a fetch is such a list (`fetched_run`).
-/

namespace Baseboard.Sel

variable {σ : Type} {reservation : Reservation} {id : RecordId}

/-- The read of the bytes that a record still lacks after `data`. -/
def missingRead (reservation : Reservation) (id : RecordId) (data : List UInt8) : EntryRead where
  reservation
  record := id
  offset := UInt8.ofNat data.length
  count := UInt8.ofNat (Record.size - data.length)

theorem toNat_offset_missingRead {data : List UInt8} (h : data.length < Record.size) :
    (missingRead reservation id data).offset.toNat = data.length := by
  simp only [missingRead, UInt8.toNat_ofNat']
  simp only [Record.size] at h
  omega

theorem toNat_count_missingRead (data : List UInt8) :
    (missingRead reservation id data).count.toNat = Record.size - data.length := by
  simp only [missingRead, UInt8.toNat_ofNat', Record.size]
  omega

/-- The exchanges that complete a record of which `data` is known, and the
result. -/
inductive Completion (reservation : Reservation) (id : RecordId) :
    List UInt8 → List Exchange → Except Failure (List UInt8) → Prop where
  | complete {data : List UInt8} (hsize : Record.size ≤ data.length) :
      Completion reservation id data [] (.ok data)
  | failed {data : List UInt8} {x : Exchange} {failure : Failure}
      (hsize : data.length < Record.size)
      (hx : x.Performs (.getSelEntry (missingRead reservation id data)) (.error failure)) :
      Completion reservation id data [x] (.error failure)
  /-- A reply without a byte of the record. -/
  | stuck {data : List UInt8} {x : Exchange} {entry : Entry}
      (hsize : data.length < Record.size)
      (hx : x.Performs (.getSelEntry (missingRead reservation id data)) (.ok entry))
      (hempty : entry.data = []) :
      Completion reservation id data [x] (.error (.tooShort "Get SEL Entry" Record.size data))
  | more {data : List UInt8} {x : Exchange} {entry : Entry} {xs : List Exchange}
      {result : Except Failure (List UInt8)} (hsize : data.length < Record.size)
      (hx : x.Performs (.getSelEntry (missingRead reservation id data)) (.ok entry))
      (hdata : entry.data ≠ [])
      (rest : Completion reservation id (data ++ entry.data) xs result) :
      Completion reservation id data (x :: xs) result

/-- The exchanges that fetch a record, and the result: what the first reply names
as the next record, and the bytes of all replies. -/
inductive Fetched (reservation : Reservation) (id : RecordId) :
    List Exchange → Except Failure (RecordId × List UInt8) → Prop where
  | failed {x : Exchange} {failure : Failure}
      (hx : x.Performs (.getSelEntry (.whole reservation id)) (.error failure)) :
      Fetched reservation id [x] (.error failure)
  | read {x : Exchange} {entry : Entry} {xs : List Exchange}
      {result : Except Failure (List UInt8)}
      (hx : x.Performs (.getSelEntry (.whole reservation id)) (.ok entry))
      (rest : Completion reservation id entry.data xs result) :
      Fetched reservation id (x :: xs) (result.map fun data => (entry.next, data))

/-! ## Runs -/

theorem completeRecord_of_size_le {data : List UInt8} (h : Record.size ≤ data.length) :
    completeRecord reservation id data = pure data := by
  rw [completeRecord, if_neg (by omega)]

theorem completeRecord_of_lt_size {data : List UInt8} (h : data.length < Record.size) :
    completeRecord reservation id data =
      (Command.getSelEntry (missingRead reservation id data)).perform.andThen fun entry =>
        if entry.data.length = 0 then .fail (.tooShort "Get SEL Entry" Record.size data)
        else completeRecord reservation id (data ++ entry.data) := by
  rw [completeRecord, if_pos h]
  rfl

/-- Every run that completes a record is a completion. -/
theorem completion_run (t : Transport σ) (data : List UInt8) (s : σ) :
    Completion reservation id data ((completeRecord reservation id data).run t s).exchanges
      ((completeRecord reservation id data).run t s).result := by
  by_cases hsize : data.length < Record.size
  · rw [completeRecord_of_lt_size hsize]
    obtain ⟨x, result, s', hx, hxs, hresult⟩ :=
      Command.exists_performs_handle (.getSelEntry (missingRead reservation id data)) _ t s
    rw [Dialogue.andThen, hxs, hresult]
    cases result with
    | error failure => exact .failed hsize hx
    | ok entry =>
        dsimp only
        by_cases hempty : entry.data.length = 0
        · rw [if_pos hempty]
          exact .stuck hsize hx (List.length_eq_zero_iff.mp hempty)
        · rw [if_neg hempty]
          have hdata : entry.data ≠ [] := fun h => hempty (List.length_eq_zero_iff.mpr h)
          exact .more hsize hx hdata (completion_run t (data ++ entry.data) s')
  · rw [completeRecord_of_size_le (by omega)]
    exact .complete (by omega)
termination_by Record.size - data.length
decreasing_by
  rw [List.length_append]
  omega

/-- Every run of a fetch is a list of exchanges that fetches the record. -/
theorem fetched_run (reservation : Reservation) (id : RecordId) (t : Transport σ) (s : σ) :
    Fetched reservation id ((fetch reservation id).run t s).exchanges
      ((fetch reservation id).run t s).result := by
  have hfetch : fetch reservation id =
      (Command.getSelEntry (.whole reservation id)).perform.andThen fun entry =>
        (completeRecord reservation id entry.data).andThen fun data =>
          pure (entry.next, data) := rfl
  obtain ⟨x, result, s', hx, hxs, hresult⟩ :=
    Command.exists_performs_handle (.getSelEntry (.whole reservation id)) _ t s
  rw [hfetch, Dialogue.andThen, hxs, hresult]
  cases result with
  | error failure => exact .failed hx
  | ok entry =>
      dsimp only
      rw [Dialogue.run_andThen_pure]
      exact .read hx (completion_run t entry.data s')

/-! ## Requests -/

/-- The read of a log entry that a request asks for, if it asks for one. -/
def EntryRead.ofRequest? (r : Request) : Option EntryRead :=
  if r.address = .request .storage 0 ∧ r.command = 0x43 then
    match r.data with
    | [t0, t1, i0, i1, offset, count] =>
      some { reservation := ⟨le16 t0 t1⟩, record := ⟨le16 i0 i1⟩, offset, count }
    | _ => none
  else none

/-- A read is known from its request. -/
@[simp] theorem EntryRead.ofRequest?_request (read : EntryRead) :
    EntryRead.ofRequest? (Command.getSelEntry read).request = some read := by
  have hdata : (Command.getSelEntry read).request.data =
      toLE16 read.reservation.token ++ toLE16 read.record.number ++ [read.offset, read.count] := rfl
  rw [EntryRead.ofRequest?, if_pos ⟨rfl, rfl⟩, hdata]
  simp only [toLE16, List.cons_append, List.nil_append, le16_toLE16]

@[simp] theorem EntryRead.ofRequest?_reserveSel :
    EntryRead.ofRequest? Command.reserveSel.request = none := by
  decide

theorem Completion.exists_missingRead {data : List UInt8} {xs : List Exchange}
    {result : Except Failure (List UInt8)} (h : Completion reservation id data xs result) :
    ∀ x ∈ xs, ∃ known : List UInt8, known.length < Record.size ∧
      x.request = (Command.getSelEntry (missingRead reservation id known)).request := by
  induction h with
  | complete => simp
  | failed hsize hx =>
      intro y hy
      rw [List.mem_singleton.mp hy]
      exact ⟨_, hsize, hx.request_eq⟩
  | stuck hsize hx =>
      intro y hy
      rw [List.mem_singleton.mp hy]
      exact ⟨_, hsize, hx.request_eq⟩
  | more hsize hx _ _ ih =>
      intro y hy
      rcases List.mem_cons.mp hy with rfl | hy
      · exact ⟨_, hsize, hx.request_eq⟩
      · exact ih y hy

/-- Each read but the last brings a byte. -/
theorem Completion.length_le {data : List UInt8} {xs : List Exchange}
    {result : Except Failure (List UInt8)} (h : Completion reservation id data xs result) :
    xs.length ≤ Record.size - data.length := by
  induction h with
  | complete => simp
  | failed hsize => simp only [List.length_singleton]; omega
  | stuck hsize => simp only [List.length_singleton]; omega
  | more hsize _ hdata _ ih =>
      have hpos := List.length_pos_iff.mpr hdata
      rw [List.length_append] at ih
      rw [List.length_cons]
      omega

/-- A fetch asks for the whole record first and then for what is missing, at most
sixteen times. -/
theorem Fetched.exists_cons {xs : List Exchange}
    {result : Except Failure (RecordId × List UInt8)} (h : Fetched reservation id xs result) :
    ∃ x rest, xs = x :: rest ∧
      x.request = (Command.getSelEntry (.whole reservation id)).request ∧
      rest.length ≤ Record.size ∧
      ∀ y ∈ rest, ∃ known : List UInt8, known.length < Record.size ∧
        y.request = (Command.getSelEntry (missingRead reservation id known)).request := by
  cases h with
  | failed hx => exact ⟨_, [], rfl, hx.request_eq, Nat.zero_le _, by simp⟩
  | read hx rest =>
      have hlength := rest.length_le
      exact ⟨_, _, rfl, hx.request_eq, by omega, rest.exists_missingRead⟩

/-! ## Fetched bytes -/

theorem Completion.size_le {data whole : List UInt8} {xs : List Exchange}
    (h : Completion reservation id data xs (.ok whole)) : Record.size ≤ whole.length := by
  generalize hresult : (Except.ok whole : Except Failure (List UInt8)) = result at h
  induction h with
  | complete hsize =>
      cases hresult
      exact hsize
  | failed => cases hresult
  | stuck => cases hresult
  | more _ _ _ _ ih => exact ih hresult

/-- Only a record that is not complete is read on. -/
theorem Completion.lt_size {data : List UInt8} {xs : List Exchange} {failure : Failure}
    (h : Completion reservation id data xs (.error failure)) : data.length < Record.size := by
  generalize hresult : (Except.error failure : Except Failure (List UInt8)) = result at h
  cases h with
  | complete => cases hresult
  | failed hsize => exact hsize
  | stuck hsize => exact hsize
  | more hsize => exact hsize

/-- A fetched record has all of its bytes. -/
theorem Fetched.size_le {next : RecordId} {data : List UInt8} {xs : List Exchange}
    (h : Fetched reservation id xs (.ok (next, data))) : Record.size ≤ data.length := by
  generalize hresult : (Except.ok (next, data) : Except Failure _) = result at h
  cases h with
  | failed => cases hresult
  | @read _ _ _ completed _ rest =>
      cases completed with
      | error failure => cases hresult
      | ok whole =>
          cases hresult
          exact rest.size_le

/-- Sixteen bytes are a record, whatever they hold. -/
theorem Record.exists_decode_eq_ok {data : List UInt8} (h : Record.size ≤ data.length) :
    ∃ record, Record.decode data = .ok record := by
  unfold Record.decode
  split
  · split
    · exact ⟨_, rfl⟩
    · split <;> exact ⟨_, rfl⟩
  · next hshort =>
    exfalso
    iterate 16
      rcases data with _ | ⟨_, data⟩
      · simp [size] at h
    exact hshort _ _ _ _ _ _ _ _ _ _ _ _ _ _ _ _ _ rfl

end Baseboard.Sel
