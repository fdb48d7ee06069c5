import Baseboard.Proofs.Sel.Fetch

/-!
# Baseboard.Proofs.Sel.Service

A controller that holds a log and serves it.  Asked for a record it either
cancels the reservation, or names the next record and brings at least one byte of
what was asked for; a reservation is always granted.  How much it brings and when
it cancels is up to the controller.

`Log.serves` says this of one exchange.  Main statement: a fetch from such a
controller brings exactly the bytes of the record, or it is cancelled once, at
its end (`Log.fetched_of_serves`).
-/

namespace Baseboard.Sel

/-! ## Logs -/

/-- A record as a controller stores it: its identifier and the bytes after it. -/
structure StoredRecord where
  id : RecordId
  body : List UInt8
  length_body : body.length = 14

namespace StoredRecord

/-- The bytes of a record; they start with its identifier. -/
def bytes (y : StoredRecord) : List UInt8 := toLE16 y.id.number ++ y.body

@[simp] theorem length_bytes (y : StoredRecord) : y.bytes.length = Record.size := by
  simp [bytes, toLE16, y.length_body, Record.size]

end StoredRecord

/-- The log of a controller.  Its identifiers tell its records apart, and none of
them is one that asks for the first or the last record. -/
structure Log where
  records : List StoredRecord
  nodup : (records.map (·.id)).Nodup
  ne_first : ∀ y ∈ records, y.id ≠ .first
  ne_last : ∀ y ∈ records, y.id ≠ .last

/-- What is named as the record after another one, when `rest` come after it. -/
def nextId (closing : RecordId) : List StoredRecord → RecordId
  | [] => closing
  | y :: _ => y.id

/-- The record with an identifier, and what is named as the record after it. -/
def lookUp? (closing id : RecordId) : List StoredRecord → Option (StoredRecord × RecordId)
  | [] => none
  | y :: rest => if y.id = id then some (y, nextId closing rest) else lookUp? closing id rest

theorem lookUp?_append {closing : RecordId} {y : StoredRecord} {before rest : List StoredRecord}
    (h : y.id ∉ before.map (·.id)) :
    lookUp? closing y.id (before ++ y :: rest) = some (y, nextId closing rest) := by
  induction before with
  | nil => simp [lookUp?]
  | cons z zs ih =>
      rw [List.map_cons, List.mem_cons, not_or] at h
      rw [List.cons_append, lookUp?, if_neg (Ne.symm h.1)]
      exact ih h.2

namespace Log

/-- The record that an identifier asks for, and what is named as the record after
it.  The last record names `closing`. -/
def find? (log : Log) (closing id : RecordId) : Option (StoredRecord × RecordId) :=
  if id = .first then log.records.head?.map fun y => (y, nextId closing log.records.tail)
  else lookUp? closing id log.records

theorem find?_eq_some {log : Log} {closing id : RecordId} {y : StoredRecord}
    {before rest : List StoredRecord} (hlog : log.records = before ++ y :: rest)
    (hid : id = y.id ∨ id = .first ∧ before = []) :
    log.find? closing id = some (y, nextId closing rest) := by
  rcases hid with rfl | ⟨rfl, rfl⟩
  · have hne : y.id ≠ .first := log.ne_first y (by simp [hlog])
    have hnodup := log.nodup
    rw [hlog, List.map_append, List.map_cons, List.nodup_append] at hnodup
    have hmem : y.id ∉ before.map (·.id) := fun h => hnodup.2.2 _ h _ List.mem_cons_self rfl
    rw [find?, if_neg hne, hlog, lookUp?_append hmem]
  · rw [find?, if_pos rfl, hlog]
    rfl

end Log

/-! ## Replies -/

/-- Whether a reply grants a reservation. -/
def grants : Except Failure Response → Bool
  | .ok ⟨0x00, _ :: _ :: _⟩ => true
  | _ => false

/-- The reservation that a reply grants. -/
def granted? : Except Failure Response → Option Reservation
  | .ok ⟨0x00, lo :: hi :: _⟩ => some ⟨le16 lo hi⟩
  | _ => none

/-- Whether a reply names the next record and brings a byte or more of the front of
`wanted`, and nothing else. -/
def brings (next : RecordId) (wanted : List UInt8) : Except Failure Response → Bool
  | .ok ⟨0x00, lo :: hi :: part⟩ =>
    le16 lo hi = next.number && !part.isEmpty && part.isPrefixOf wanted
  | _ => false

/-- Whether the controller cancelled the reservation of a read. -/
def cancels (x : Exchange) : Bool :=
  match EntryRead.ofRequest? x.request, x.reply with
  | some _, .ok ⟨code, _⟩ => code = 0xC5
  | _, _ => false

/-- Whether a read reached the end of its record. -/
def completes (x : Exchange) : Bool :=
  match EntryRead.ofRequest? x.request, x.reply with
  | some read, .ok ⟨0x00, _ :: _ :: part⟩ => Record.size ≤ read.offset.toNat + part.length
  | _, _ => false

/-- Whether an exchange is one that a controller with this log may take part in:
it cancels a read or serves part of what was asked for, and it grants every
reservation.  Of other requests nothing is said. -/
def Log.serves (log : Log) (closing : RecordId) (x : Exchange) : Bool :=
  match EntryRead.ofRequest? x.request with
  | some read =>
    match log.find? closing read.record with
    | some (y, next) =>
      cancels x ||
        brings next ((y.bytes.drop read.offset.toNat).take read.count.toNat) x.reply
    | none => true
  | none => x.request ≠ Command.reserveSel.request || grants x.reply

theorem exists_of_brings {next : RecordId} {wanted : List UInt8}
    {reply : Except Failure Response} (h : brings next wanted reply = true) :
    ∃ lo hi part, reply = .ok ⟨0x00, lo :: hi :: part⟩ ∧ le16 lo hi = next.number ∧
      part ≠ [] ∧ part <+: wanted := by
  unfold brings at h
  split at h
  · next lo hi part =>
    simp only [Bool.and_eq_true, decide_eq_true_eq, Bool.not_eq_true', List.isEmpty_eq_false_iff,
      List.isPrefixOf_iff_prefix] at h
    exact ⟨lo, hi, part, rfl, h.1.1, h.1.2, h.2⟩
  · contradiction

theorem grants_eq_isSome (reply : Except Failure Response) :
    grants reply = (granted? reply).isSome := by
  unfold grants granted?
  split <;> rfl

/-- A reservation is had just when the reply grants it. -/
theorem granted?_of_performs {x : Exchange} {result : Except Failure Reservation}
    (hx : x.Performs .reserveSel result) : granted? x.reply = result.toOption := by
  rw [← hx.outcome_eq]
  cases x.reply with
  | error failure => rfl
  | ok response =>
      obtain ⟨code, data⟩ := response
      by_cases hcode : code = 0x00
      · subst hcode
        rcases data with _ | ⟨lo, _ | ⟨hi, rest⟩⟩ <;> rfl
      · rw [Command.outcome_of_ne_zero _ hcode]
        unfold granted?
        split
        · next h => exact absurd (congrArg Response.code (Except.ok.inj h)) hcode
        · rfl

theorem reserves_of_grants {x : Exchange} {result : Except Failure Reservation}
    (hx : x.Performs .reserveSel result) (h : grants x.reply = true) :
    ∃ reservation, result = .ok reservation := by
  rw [grants_eq_isSome, granted?_of_performs hx] at h
  cases result with
  | ok reservation => exact ⟨reservation, rfl⟩
  | error failure => contradiction

/-- A reservation that is asked for is granted. -/
theorem Log.reserves_of_serves {log : Log} {closing : RecordId} {x : Exchange}
    {result : Except Failure Reservation} (h : log.serves closing x = true)
    (hx : x.Performs .reserveSel result) : ∃ reservation, result = .ok reservation := by
  have hgrants : grants x.reply = true := by
    simpa [serves, hx.request_eq] using h
  exact reserves_of_grants hx hgrants

/-- A reply to a read of part of a record that the log holds. -/
inductive Served (y : StoredRecord) (next : RecordId) (read : EntryRead) (x : Exchange) :
    Except Failure Entry → Prop where
  | cancelled {failure : Failure} (hcancel : failure.isReservationCancelled = true)
      (hcancels : cancels x = true) (hcompletes : completes x = false) :
      Served y next read x (.error failure)
  | brought {part : List UInt8} (hne : part ≠ [])
      (hpart : part <+: (y.bytes.drop read.offset.toNat).take read.count.toNat)
      (hcancels : cancels x = false)
      (hcompletes : completes x = decide (Record.size ≤ read.offset.toNat + part.length)) :
      Served y next read x (.ok ⟨next, part⟩)

/-- What a read was served. -/
theorem Served.of_ok {y : StoredRecord} {next : RecordId} {read : EntryRead} {x : Exchange}
    {entry : Entry} (h : Served y next read x (.ok entry)) :
    entry.next = next ∧ entry.data ≠ [] ∧
      entry.data <+: (y.bytes.drop read.offset.toNat).take read.count.toNat ∧
      cancels x = false ∧
      completes x = decide (Record.size ≤ read.offset.toNat + entry.data.length) := by
  cases h with
  | brought hne hpart hcancels hcompletes => exact ⟨rfl, hne, hpart, hcancels, hcompletes⟩

/-- Why a read was not served. -/
theorem Served.of_error {y : StoredRecord} {next : RecordId} {read : EntryRead} {x : Exchange}
    {failure : Failure} (h : Served y next read x (.error failure)) :
    failure.isReservationCancelled = true ∧ cancels x = true ∧ completes x = false := by
  cases h with
  | cancelled hcancel hcancels hcompletes => exact ⟨hcancel, hcancels, hcompletes⟩

theorem Log.served_of_serves {log : Log} {closing next : RecordId} {y : StoredRecord}
    {read : EntryRead} {x : Exchange} {result : Except Failure Entry}
    (hfind : log.find? closing read.record = some (y, next)) (h : log.serves closing x = true)
    (hx : x.Performs (.getSelEntry read) result) : Served y next read x result := by
  have hread : EntryRead.ofRequest? x.request = some read := by
    rw [hx.request_eq, EntryRead.ofRequest?_request]
  rw [serves, hread] at h
  simp only [hfind, Bool.or_eq_true] at h
  rw [← hx.outcome_eq]
  rcases h with hcancels | hbrings
  · obtain ⟨data, hreply⟩ : ∃ data, x.reply = .ok ⟨0xC5, data⟩ := by
      simp only [cancels, hread] at hcancels
      split at hcancels
      · next hreply => exact ⟨_, by rw [hreply, of_decide_eq_true hcancels]⟩
      · contradiction
    have hcompletes : completes x = false := by
      simp [completes, hread, hreply]
    rw [hreply, Command.outcome_of_cancelled]
    exact .cancelled rfl hcancels hcompletes
  · obtain ⟨lo, hi, part, hreply, hnext, hne, hpart⟩ := exists_of_brings hbrings
    have hcancels : cancels x = false := by
      simp [cancels, hread, hreply]
    have hcompletes :
        completes x = decide (Record.size ≤ read.offset.toNat + part.length) := by
      simp [completes, hread, hreply]
    have hlength : part.length ≤ read.count.toNat := by
      have hle := hpart.length_le
      rw [List.length_take] at hle
      omega
    have hread? : (Command.getSelEntry read).read? (lo :: hi :: part) =
        some (⟨next, part⟩, part.drop read.count.toNat) := by
      simp [Command.read?, Entry.read?, hnext, List.take_of_length_le hlength]
    rw [hreply, Command.outcome_of_read? hread?]
    exact .brought hne hpart hcancels hcompletes

/-! ## Fetches -/

/-- What a fetch from a controller that serves the log comes to, in its exchanges
and its result: all the bytes of the record, or a cancellation before they are
complete. -/
inductive Delivered {α : Type} (whole : α) (xs : List Exchange) : Except Failure α → Prop where
  | all : Delivered whole xs (.ok whole)
  | cancelled {failure : Failure} (hcancel : failure.isReservationCancelled = true)
      (hcount : xs.countP cancels = 1) (hcompletes : ∀ x ∈ xs, completes x = false) :
      Delivered whole xs (.error failure)

/-- What a fetch delivers is the whole. -/
theorem Delivered.eq_whole {α : Type} {whole value : α} {xs : List Exchange}
    (h : Delivered whole xs (.ok value)) : value = whole := by
  cases h
  rfl

/-- Why a fetch delivers nothing. -/
theorem Delivered.of_error {α : Type} {whole : α} {xs : List Exchange} {failure : Failure}
    (h : Delivered whole xs (.error failure)) :
    failure.isReservationCancelled = true ∧ xs.countP cancels = 1 ∧
      ∀ x ∈ xs, completes x = false := by
  cases h with
  | cancelled hcancel hcount hcompletes => exact ⟨hcancel, hcount, hcompletes⟩

/-- One cancelled read delivers nothing. -/
theorem Served.delivered {α : Type} {y : StoredRecord} {next : RecordId} {read : EntryRead}
    {x : Exchange} {failure : Failure} (whole : α) (h : Served y next read x (.error failure)) :
    Delivered whole [x] (.error failure) := by
  obtain ⟨hcancel, hcancels, hcompletes⟩ := h.of_error
  exact .cancelled hcancel (by simp [hcancels]) (by simpa using hcompletes)

/-- A read that was served, and did not complete the record, leaves it to the
exchanges after it whether the record is delivered. -/
theorem Delivered.cons {α : Type} {whole : α} {xs : List Exchange} {result : Except Failure α}
    {x : Exchange} (h : Delivered whole xs result) (hcancels : cancels x = false)
    (hcompletes : ∀ failure, result = .error failure → completes x = false) :
    Delivered whole (x :: xs) result := by
  cases h with
  | all => exact .all
  | cancelled hcancel hcount hnone =>
      refine .cancelled hcancel (by simp [hcancels, hcount]) ?_
      intro x' hx'
      rcases List.mem_cons.mp hx' with rfl | hx'
      · exact hcompletes _ rfl
      · exact hnone x' hx'

theorem Delivered.map {α β : Type} {whole : α} {xs : List Exchange} {result : Except Failure α}
    (f : α → β) (h : Delivered whole xs result) : Delivered (f whole) xs (result.map f) := by
  cases h with
  | all => exact .all
  | cancelled hcancel hcount hnone => exact .cancelled hcancel hcount hnone

/-- A read of what is missing adds to the front of a record that is known. -/
theorem append_isPrefix {data part bytes : List UInt8} {n : Nat} (hdata : data <+: bytes)
    (hpart : part <+: (bytes.drop data.length).take n) : data ++ part <+: bytes :=
  isPrefix_append_of_drop hdata (hpart.trans (List.take_prefix _ _))

/-- Completing a record from such a controller brings what the record lacks. -/
theorem Log.completion_of_serves {log : Log} {closing id next : RecordId} {y : StoredRecord}
    {reservation : Reservation} {data : List UInt8} {xs : List Exchange}
    {result : Except Failure (List UInt8)} (hfind : log.find? closing id = some (y, next))
    (hserves : ∀ x ∈ xs, log.serves closing x = true) (hdata : data <+: y.bytes)
    (h : Completion reservation id data xs result) : Delivered y.bytes xs result := by
  induction h with
  | complete hsize =>
      have heq := hdata.eq_of_length_le (by rw [y.length_bytes]; exact hsize)
      rw [heq]
      exact .all
  | failed hsize hx =>
      exact (log.served_of_serves hfind (hserves _ List.mem_cons_self) hx).delivered _
  | stuck hsize hx hempty =>
      have hserved := log.served_of_serves hfind (hserves _ List.mem_cons_self) hx
      exact absurd hempty hserved.of_ok.2.1
  | @more data x entry xs result hsize hx hne rest ih =>
      obtain ⟨-, -, hpart, hcancels, hcompletes⟩ :=
        (log.served_of_serves hfind (hserves _ List.mem_cons_self) hx).of_ok
      rw [toNat_offset_missingRead hsize] at hpart hcompletes
      have hdelivered := ih (fun x' hx' => hserves x' (List.mem_cons_of_mem x hx'))
        (append_isPrefix hdata hpart)
      refine hdelivered.cons hcancels fun failure hfailure => ?_
      -- The record was not complete yet, because another read followed.
      subst hfailure
      have hlt := rest.lt_size
      rw [List.length_append] at hlt
      rw [hcompletes]
      exact decide_eq_false (by omega)

/-- A fetch from such a controller brings exactly the bytes of the record, or is
cancelled before they are complete. -/
theorem Log.fetched_of_serves {log : Log} {closing id next : RecordId} {y : StoredRecord}
    {reservation : Reservation} {xs : List Exchange}
    {result : Except Failure (RecordId × List UInt8)}
    (hfind : log.find? closing id = some (y, next))
    (hserves : ∀ x ∈ xs, log.serves closing x = true) (h : Fetched reservation id xs result) :
    Delivered (next, y.bytes) xs result := by
  cases h with
  | failed hx =>
      exact (log.served_of_serves hfind (hserves _ List.mem_cons_self) hx).delivered _
  | @read x entry xs completed hx rest =>
      obtain ⟨rfl, -, hpart, hcancels, hcompletes⟩ :=
        (log.served_of_serves hfind (hserves _ List.mem_cons_self) hx).of_ok
      have hfront : entry.data <+: y.bytes := append_isPrefix List.nil_prefix hpart
      have hdelivered := log.completion_of_serves hfind
        (fun x' hx' => hserves x' (List.mem_cons_of_mem x hx')) hfront rest
      refine (hdelivered.cons hcancels fun failure hfailure => ?_).map
        fun data => (entry.next, data)
      subst hfailure
      have hlt := rest.lt_size
      have hoffset : (EntryRead.whole reservation id).offset.toNat = 0 := rfl
      rw [hcompletes, hoffset]
      exact decide_eq_false (by omega)

end Baseboard.Sel
