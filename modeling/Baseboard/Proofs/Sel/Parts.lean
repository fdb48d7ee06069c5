import Baseboard.Proofs.Sel.Discipline

/-!
# Baseboard.Proofs.Sel.Parts

How a record is put together from the replies of the controller, whatever these are.

After each reply the fetch holds the bytes that its reads brought (`held`).  A fetch seen
from any read on completes what is held there (`Fetched.resume`), so that each later read
asks for exactly the missing bytes, and the record is what all reads brought.  What was
fetched has sixteen bytes or more and so always decodes: a walk fails because an exchange
failed, or a reply had no byte of the record, or a record leads back (`Walk.Fails`).

Main statement: `fetched_in_parts`.
-/

namespace Baseboard.Sel

variable {σ : Type} {reservation : Reservation} {id : RecordId} {data : List UInt8}
variable {xs before after : List Exchange} {y : Exchange}

/-- The bytes of a record that these reads brought. -/
def held (xs : List Exchange) : List UInt8 := xs.flatMap brought

@[simp] theorem held_nil : held [] = [] := rfl

@[simp] theorem held_cons (x : Exchange) (xs : List Exchange) :
    held (x :: xs) = brought x ++ held xs := rfl

/-! ## The rest of a fetch -/

/-- A completion seen from a later read on completes what is held there. -/
theorem Completion.resume {result : Except Failure (List UInt8)}
    (h : Completion reservation id data (before ++ y :: after) result) :
    Completion reservation id (data ++ held before) (y :: after) result := by
  -- Over the reads before `y`: each of them brought something, or `y` would not follow it.
  induction before generalizing data with
  | nil => rwa [held_nil, List.append_nil]
  | cons x before ih =>
      rw [List.cons_append] at h
      generalize hrest : before ++ y :: after = rest at h
      cases h with
      | failed => simp at hrest
      | stuck => simp at hrest
      | more _ hx _ hcompletion =>
          subst hrest
          rw [held_cons, brought_of_performs hx, ← List.append_assoc]
          exact ih hcompletion

/-- The same of a fetch. -/
theorem Fetched.resume {result : Except Failure (RecordId × List UInt8)}
    (h : Fetched reservation id (before ++ y :: after) result) (hbefore : before ≠ []) :
    ∃ next completed, Completion reservation id (held before) (y :: after) completed ∧
      result = completed.map fun data => (next, data) := by
  obtain ⟨x, before, rfl⟩ := List.exists_cons_of_ne_nil hbefore
  rw [List.cons_append] at h
  generalize hrest : before ++ y :: after = rest at h
  cases h with
  | failed => simp at hrest
  | @read _ entry _ completed hx hcompletion =>
      subst hrest
      rw [held_cons, brought_of_performs hx]
      exact ⟨entry.next, completed, hcompletion.resume, rfl⟩

/-- What is completed by a further read is not complete, and the read asks for what is
missing. -/
theorem Completion.asks {result : Except Failure (List UInt8)}
    (h : Completion reservation id data (y :: after) result) :
    data.length < Record.size ∧
      y.request = (Command.getSelEntry (missingRead reservation id data)).request := by
  cases h with
  | failed hsize hx => exact ⟨hsize, hx.request_eq⟩
  | stuck hsize hx => exact ⟨hsize, hx.request_eq⟩
  | more hsize hx => exact ⟨hsize, hx.request_eq⟩

/-! ## Reads that fail -/

/-- A read has one result. -/
theorem result_eq_of_performs {read read' : EntryRead} {result result' : Except Failure Entry}
    (h : y.Performs (.getSelEntry read) result) (h' : y.Performs (.getSelEntry read') result') :
    result = result' := by
  have hread := (ofRequest?_of_performs h).symm.trans (ofRequest?_of_performs h')
  obtain rfl := Option.some.inj hread
  exact h.unique h'

/-- A read that fails ends a completion. -/
theorem Completion.of_performs_error {result : Except Failure (List UInt8)} {read : EntryRead}
    {failure : Failure} (h : Completion reservation id data (y :: after) result)
    (hy : y.Performs (.getSelEntry read) (.error failure)) :
    after = [] ∧ result = .error failure := by
  cases h with
  | failed _ hx =>
      cases result_eq_of_performs hx hy
      exact ⟨rfl, rfl⟩
  | stuck _ hx => cases result_eq_of_performs hx hy
  | more _ hx => cases result_eq_of_performs hx hy

/-- A read that fails ends a fetch. -/
theorem Fetched.of_performs_error {result : Except Failure (RecordId × List UInt8)}
    {read : EntryRead} {failure : Failure}
    (h : Fetched reservation id (before ++ y :: after) result)
    (hy : y.Performs (.getSelEntry read) (.error failure)) :
    after = [] ∧ result = .error failure := by
  by_cases hbefore : before = []
  · subst hbefore
    cases h with
    | failed hx =>
        cases result_eq_of_performs hx hy
        exact ⟨rfl, rfl⟩
    | read hx => cases result_eq_of_performs hx hy
  · obtain ⟨next, completed, hcompletion, rfl⟩ := h.resume hbefore
    obtain ⟨hafter, rfl⟩ := hcompletion.of_performs_error hy
    exact ⟨hafter, rfl⟩

/-! ## Replies without a byte of the record -/

/-- A reply that names the next record and has no byte of this one. -/
def IsBare (y : Exchange) : Prop := ∃ lo hi, y.reply = .ok ⟨0x00, [lo, hi]⟩

theorem isBare_iff_of_performs {read : EntryRead} {entry : Entry}
    (hy : y.Performs (.getSelEntry read) (.ok entry)) (hcount : 0 < read.count.toNat) :
    IsBare y ↔ entry.data = [] := by
  obtain ⟨lo, hi, part, hreply, rfl⟩ := exists_reply_of_performs hy
  have hempty : part.take read.count.toNat = [] ↔ part = [] :=
    List.take_eq_nil_iff.trans (or_iff_right (Nat.ne_of_gt hcount))
  simp [IsBare, hreply, hempty]

/-- A bare reply is understood. -/
theorem IsBare.not_performs_error {read : EntryRead} {failure : Failure} (h : IsBare y) :
    ¬ y.Performs (.getSelEntry read) (.error failure) := by
  intro hy
  obtain ⟨lo, hi, hreply⟩ := h
  have hok := hy.outcome_eq
  rw [hreply, Command.outcome_of_read? rfl] at hok
  contradiction

/-- A read of missing bytes asks for one byte at least. -/
theorem count_missingRead_pos (h : data.length < Record.size) :
    0 < (missingRead reservation id data).count.toNat := by
  rw [toNat_count_missingRead]
  omega

/-- A bare reply ends a completion; the failure has the bytes held so far. -/
theorem Completion.of_isBare {result : Except Failure (List UInt8)}
    (h : Completion reservation id data (y :: after) result) (hy : IsBare y) :
    after = [] ∧ result = .error (.tooShort "Get SEL Entry" Record.size data) := by
  cases h with
  | failed _ hx => exact (hy.not_performs_error hx).elim
  | stuck => exact ⟨rfl, rfl⟩
  | more hsize hx hdata =>
      exact (hdata ((isBare_iff_of_performs hx (count_missingRead_pos hsize)).mp hy)).elim

/-- The last exchange of a fetch that failed is to blame. -/
inductive Blames (before : List Exchange) (y : Exchange) : Failure → Prop where
  /-- It failed. -/
  | failed {read : EntryRead} {failure : Failure}
      (hy : y.Performs (.getSelEntry read) (.error failure)) : Blames before y failure
  /-- The reply was bare, and the record not complete. -/
  | bare (hy : IsBare y) (hbefore : before ≠ []) (hsize : (held before).length < Record.size) :
      Blames before y (.tooShort "Get SEL Entry" Record.size (held before))

/-- A fetch that fails does so on its last exchange. -/
theorem Fetched.blames {failure : Failure} (h : Fetched reservation id xs (.error failure)) :
    ∃ before y, xs = before ++ [y] ∧ Blames before y failure := by
  obtain ⟨before, y, rfl, -⟩ := h.ends
  refine ⟨before, y, rfl, ?_⟩
  by_cases hbefore : before = []
  · subst hbefore
    generalize hxs : [] ++ [y] = xs at h
    generalize hresult : (Except.error failure : Except Failure _) = result at h
    cases h with
    | failed hx =>
        cases hxs
        cases hresult
        exact .failed hx
    | @read _ _ _ completed hx rest =>
        cases hxs
        cases rest with
        | complete => cases hresult
  · obtain ⟨next, completed, hcompletion, hresult⟩ := h.resume hbefore
    cases hcompletion with
    | failed _ hx =>
        cases hresult
        exact .failed hx
    | stuck hsize hx hempty =>
        cases hresult
        refine .bare ?_ hbefore hsize
        exact (isBare_iff_of_performs hx (count_missingRead_pos hsize)).mpr hempty
    | more _ _ _ rest =>
        cases rest with
        | complete => cases hresult

/-! ## Complete records -/

/-- What a read of missing bytes brings is not too much. -/
theorem length_of_missingRead_le {entry : Entry}
    (hy : y.Performs (.getSelEntry (missingRead reservation id data)) (.ok entry)) :
    entry.data.length ≤ Record.size - data.length := by
  obtain ⟨lo, hi, part, -, rfl⟩ := exists_reply_of_performs hy
  have hcount : (missingRead reservation id data).count.toNat = Record.size - data.length :=
    toNat_count_missingRead data
  exact hcount ▸ List.length_take_le _ part

theorem Completion.length_le_size {whole : List UInt8}
    (h : Completion reservation id data xs (.ok whole)) (hsize : data.length ≤ Record.size) :
    whole.length ≤ Record.size := by
  generalize hresult : (Except.ok whole : Except Failure (List UInt8)) = result at h
  induction h with
  | complete =>
      cases hresult
      exact hsize
  | failed => cases hresult
  | stuck => cases hresult
  | more _ hx _ _ ih =>
      have hlength := length_of_missingRead_le hx
      refine ih ?_ hresult
      rw [List.length_append]
      omega

/-- A record that had to be completed is sixteen bytes long, and not longer. -/
theorem Completion.length_eq {whole : List UInt8}
    (h : Completion reservation id data xs (.ok whole)) (hsize : data.length < Record.size) :
    whole.length = Record.size :=
  Nat.le_antisymm (h.length_le_size (Nat.le_of_lt hsize)) h.size_le

/-! ## Fetches -/

/-- A later read of a fetch, after the exchanges before it. -/
structure AsksForRest (reservation : Reservation) (id : RecordId) (before : List Exchange)
    (y : Exchange) : Prop where
  /-- The record is not complete. -/
  lt_size : (held before).length < Record.size
  /-- The read starts after the bytes that are held, and ends where the record does. -/
  request : ∃ read : EntryRead, y.request = (Command.getSelEntry read).request ∧
    read.reservation = reservation ∧ read.record = id ∧
    read.offset.toNat = (held before).length ∧
    read.count.toNat = Record.size - (held before).length ∧
    read.offset.toNat + read.count.toNat = Record.size

/-- How a record comes of the exchanges that fetch it. -/
structure FetchedInParts (reservation : Reservation) (id : RecordId) (xs : List Exchange)
    (result : Except Failure (RecordId × List UInt8)) : Prop where
  length_le : xs.length ≤ 17
  /-- The first read is of the whole record. -/
  whole : ∃ x rest, xs = x :: rest ∧
    x.request = (Command.getSelEntry ⟨reservation, id, 0, 0xFF⟩).request
  /-- Each later one is of what is missing. -/
  rest : ∀ before y after, xs = before ++ y :: after → before ≠ [] →
    AsksForRest reservation id before y
  /-- The first reply names the next record.  It brings the whole record, or the record is
  what all replies bring and has sixteen bytes. -/
  data : ∀ next data, result = .ok (next, data) → ∃ x rest lo hi part, xs = x :: rest ∧
    x.reply = .ok ⟨0x00, lo :: hi :: part⟩ ∧ next = ⟨le16 lo hi⟩ ∧
    (rest = [] ∧ Record.size ≤ part.length ∧ data = part.take 0xFF ∨
      data.length = Record.size ∧ data = held xs)
  /-- What was fetched is a record. -/
  decodes : ∀ next data, result = .ok (next, data) → ∃ record, Record.decode data = .ok record
  /-- A read that fails is the end, be it that no reply came or that it was refused. -/
  failed : ∀ before y after read failure, xs = before ++ y :: after →
    y.Performs (.getSelEntry read) (.error failure) → after = [] ∧ result = .error failure
  /-- A bare reply to a later read is the end. -/
  bare : ∀ before y after, xs = before ++ y :: after → before ≠ [] → IsBare y →
    after = [] ∧ result = .error (.tooShort "Get SEL Entry" Record.size (held before))
  /-- A fetch fails through its last exchange. -/
  blames : ∀ failure, result = .error failure →
    ∃ before y, xs = before ++ [y] ∧ Blames before y failure

theorem Completion.asksForRest {result : Except Failure (List UInt8)}
    (h : Completion reservation id (held before) (y :: after) result) :
    AsksForRest reservation id before y := by
  obtain ⟨hsize, hrequest⟩ := h.asks
  have hoffset : (missingRead reservation id (held before)).offset.toNat = (held before).length :=
    toNat_offset_missingRead hsize
  have hcount : (missingRead reservation id (held before)).count.toNat =
      Record.size - (held before).length := toNat_count_missingRead _
  refine ⟨hsize, _, hrequest, rfl, rfl, hoffset, hcount, ?_⟩
  omega

/-- The bytes of a fetched record, from the replies. -/
theorem Fetched.data_eq {next : RecordId} (h : Fetched reservation id xs (.ok (next, data))) :
    ∃ x rest lo hi part, xs = x :: rest ∧ x.reply = .ok ⟨0x00, lo :: hi :: part⟩ ∧
      next = ⟨le16 lo hi⟩ ∧
        (rest = [] ∧ Record.size ≤ part.length ∧ data = part.take 0xFF ∨
          data.length = Record.size ∧ data = held xs) := by
  have hheld := h.eq_brought
  generalize hresult : (Except.ok (next, data) : Except Failure _) = result at h
  cases h with
  | failed => cases hresult
  | @read x entry rest completed hx hcompletion =>
      obtain ⟨lo, hi, part, hreply, rfl⟩ := exists_reply_of_performs hx
      cases completed with
      | error failure => cases hresult
      | ok whole =>
          cases hresult
          refine ⟨x, rest, lo, hi, part, rfl, hreply, rfl, ?_⟩
          by_cases hsize : Record.size ≤ (part.take 0xFF).length
          · obtain ⟨rfl, hwhole⟩ := hcompletion.of_size_le hsize
            cases hwhole
            exact .inl ⟨rfl, Nat.le_trans hsize (List.length_take_le' _ _), rfl⟩
          · exact .inr ⟨hcompletion.length_eq (Nat.lt_of_not_le hsize), hheld⟩

theorem Fetched.fetchedInParts {result : Except Failure (RecordId × List UInt8)}
    (h : Fetched reservation id xs result) : FetchedInParts reservation id xs result where
  length_le := by
    obtain ⟨x, rest, rfl, -, hlength, -⟩ := h.exists_cons
    exact Nat.succ_le_succ hlength
  whole := by
    obtain ⟨x, rest, hxs, hwhole, -⟩ := h.exists_cons
    exact ⟨x, rest, hxs, hwhole⟩
  rest before y after hxs hbefore := by
    subst hxs
    obtain ⟨_, _, hcompletion, -⟩ := h.resume hbefore
    exact hcompletion.asksForRest
  data next data hresult := by
    subst hresult
    exact h.data_eq
  decodes next data hresult := by
    subst hresult
    exact Record.exists_decode_eq_ok h.size_le
  failed before y after read failure hxs hy := by
    subst hxs
    exact h.of_performs_error hy
  bare before y after hxs hbefore hy := by
    subst hxs
    obtain ⟨next, completed, hcompletion, rfl⟩ := h.resume hbefore
    obtain ⟨hafter, rfl⟩ := hcompletion.of_isBare hy
    exact ⟨hafter, rfl⟩
  blames failure hresult := by
    subst hresult
    exact h.blames

/-! ## Walks -/

/-- How a walk fails after these exchanges.  That the bytes of a record do not decode is
not among the ways. -/
inductive Walk.Fails : List Exchange → Failure → Prop where
  | unreserved {front : List Exchange} {y : Exchange} {failure : Failure}
      (hy : y.Performs .reserveSel (.error failure)) : Fails (front ++ [y]) failure
  | unread {front before : List Exchange} {y : Exchange} {failure : Failure}
      (hy : Blames before y failure) : Fails (front ++ (before ++ [y])) failure
  | leadsBack {xs : List Exchange} :
      Fails xs (.protocol "SEL next record ID revisits an earlier record")

theorem Walk.Turned.fails {w : Walk} {failure : Failure} {ys : List Exchange}
    (h : Turned w ys (.error failure)) (xs : List Exchange) : Fails (xs ++ ys) failure := by
  cases h with
  | unreserved _ hy => exact .unreserved hy
  | refused => exact .leadsBack
  | spent _ hys =>
      obtain ⟨before, y, rfl, hy⟩ := hys.blames
      rw [← List.append_assoc]
      exact .unread hy
  | failed _ hys =>
      obtain ⟨before, y, rfl, hy⟩ := hys.blames
      rw [← List.append_assoc]
      exact .unread hy

theorem Walk.Finished.fails {w : Walk} {failure : Failure}
    (h : Finished w xs (.error failure)) : Fails xs failure := by
  generalize hresult : (Except.error failure : Except Failure (List Record)) = result at h
  cases h with
  | arrived => cases hresult
  | failed _ _ hturn =>
      cases hresult
      exact hturn.fails _

/-- Whatever the controller replies, a fetch reads a record in parts that fit together,
and a walk never fails to decode what was fetched. -/
theorem fetched_in_parts (t : Transport σ) (s : σ) :
    (∀ (reservation : Reservation) (id : RecordId),
      let r := (fetch reservation id).run t s
      FetchedInParts reservation id r.exchanges r.result) ∧
    ∀ (w : Walk) (failure : Failure), (w.finish.run t s).result = .error failure →
      Walk.Fails (w.finish.run t s).exchanges failure := by
  refine ⟨fun reservation id => (fetched_run reservation id t s).fetchedInParts,
    fun w failure hfailure => ?_⟩
  have hfinished := w.finished_run t s
  rw [hfailure] at hfinished
  exact hfinished.fails

end Baseboard.Sel
