import Baseboard.Sel.Record

/-!
# Baseboard.Sel.Walk

A walk through the event log, record by record.  Each record names the one after
it, and the controller may cancel the reservation under which records are read.

A walk moves on only when a record was accepted, so after a cancelled
reservation it goes on with the record that failed.  It remembers every
identifier that it asked for or met, and refuses a record that leads back to one
of them.

Main statement: an accepted record brings the walk nearer to its end
(`Walk.pending_lt_of_accept_eq_ok`), because the identifiers that it has not met
become fewer.
-/

namespace Baseboard.Sel

/-- The state of a walk. -/
structure Walk where
  /-- The record to ask for next. -/
  cursor : RecordId
  /-- The identifiers asked for and met so far. -/
  visited : List RecordId
  reservation : Option Reservation
  /-- Reservations lost since the last record. -/
  recoveries : Nat
  /-- The most reservations that may be lost in a row. -/
  maxRecoveries : Nat
  /-- How many records to stop after. -/
  limit : Option Nat
  /-- The records accepted so far, in order. -/
  records : List Record
  /-- Whether the end of the log or the limit was reached. -/
  done : Bool
  deriving DecidableEq, Repr

namespace Walk

/-- A walk from a record on. -/
def start (cursor : RecordId) (maxRecoveries : Nat) : Walk where
  cursor
  visited := []
  reservation := none
  recoveries := 0
  maxRecoveries
  limit := none
  records := []
  done := cursor.isLast

/-- The walk that stops after `limit` records. -/
def withLimit (w : Walk) (limit : Nat) : Walk :=
  { w with limit := some limit, done := w.done || limit = 0 }

/-- The walk under a new reservation. -/
def reserved (w : Walk) (reservation : Reservation) : Walk :=
  { w with reservation := some reservation }

/-- Whether `count` records reach the limit. -/
def reachesLimit (w : Walk) (count : Nat) : Bool := w.limit.any (· ≤ count)

/-- The walk that has met a record at its cursor. -/
def meet (w : Walk) (record : Record) : Walk :=
  { w with visited := record.id :: w.cursor :: w.visited }

/-- Whether going on with `next` would lead back to a record met before. -/
def LeadsBack (w : Walk) (next : RecordId) : Prop := next ≠ .last ∧ next ∈ w.visited

instance (w : Walk) (next : RecordId) : Decidable (w.LeadsBack next) :=
  inferInstanceAs (Decidable (_ ∧ _))

/-- The walk that has accepted a record and asks for `next` after it. -/
def moveOn (w : Walk) (record : Record) (next : RecordId) : Walk :=
  { w with
    cursor := next
    recoveries := 0
    records := w.records ++ [record]
    done := next.isLast || w.reachesLimit (w.records.length + 1) }

/-- Take the record at the cursor, from its bytes, and move on to `next`.  A
record that leads back is refused; it counts as met all the same. -/
def accept (w : Walk) (next : RecordId) (data : List UInt8) : Except Failure Unit × Walk :=
  match Record.decode data with
  | .error failure => (.error failure, w)
  | .ok record =>
    if (w.meet record).LeadsBack next then
      (.error (.protocol "SEL next record ID revisits an earlier record"), w.meet record)
    else (.ok (), (w.meet record).moveOn record next)

/-- Give up the reservation that the controller cancelled, so that the walk
reserves again; the failure stands when too many were lost in a row. -/
def lose (w : Walk) (failure : Failure) : Except Failure Walk :=
  if w.recoveries < w.maxRecoveries then
    .ok { w with recoveries := w.recoveries + 1, reservation := none }
  else .error failure

/-! ## Progress -/

/-- Whether an identifier is neither the cursor nor visited. -/
def isUnmet (w : Walk) (id : RecordId) : Bool := id ≠ w.cursor && !w.visited.contains id

/-- All record identifiers. -/
def allIds : List RecordId := (List.range 65536).map fun n => ⟨UInt16.ofNat n⟩

theorem mem_allIds (id : RecordId) : id ∈ allIds := by
  refine List.mem_map.mpr ⟨id.number.toNat, List.mem_range.mpr id.number.toNat_lt, ?_⟩
  simp

/-- A bound on the records still to come: nothing after the end, and otherwise
the record at the cursor and one for each identifier not met. -/
def pending (w : Walk) : Nat := if w.done then 0 else allIds.countP w.isUnmet + 1

private theorem countP_lt_countP {α : Type} {p q : α → Bool} {a : α} :
    ∀ {l : List α}, (∀ x, p x = true → q x = true) → a ∈ l → q a = true →
      p a = false →
      l.countP p < l.countP q
  | [], _, ha, _, _ => absurd ha List.not_mem_nil
  | x :: xs, hpq, ha, hq, hp => by
    have hle : xs.countP p ≤ xs.countP q := List.countP_mono_left fun y _ => hpq y
    rcases List.mem_cons.mp ha with rfl | hxs
    · simp only [List.countP_cons, hq, hp, Bool.false_eq_true, if_true, if_false]
      omega
    · have ih := countP_lt_countP hpq hxs hq hp
      have hx := hpq x
      simp only [List.countP_cons]
      cases hpx : p x
      · simp only [Bool.false_eq_true, if_false]
        omega
      · simp only [hx hpx, if_true]
        omega

/-- An accepted record brings a walk nearer to its end. -/
theorem pending_lt_of_accept_eq_ok {w w' : Walk} {next : RecordId} {data : List UInt8}
    (hdone : w.done = false) (h : w.accept next data = (.ok (), w')) :
    w'.pending < w.pending := by
  unfold accept at h
  split at h
  · simp at h
  · split at h
    · simp at h
    · next record _ hfresh =>
      simp only [Prod.mk.injEq, true_and] at h
      subst h
      simp only [pending, hdone, Bool.false_eq_true, if_false]
      split
      · omega
      · next hmore =>
        have hlast : next ≠ .last := by
          intro heq
          simp [moveOn, heq, RecordId.isLast] at hmore
        have hnext : ¬ next ∈ record.id :: w.cursor :: w.visited := fun hmem =>
          hfresh ⟨hlast, hmem⟩
        simp only [List.mem_cons, not_or] at hnext
        apply Nat.succ_lt_succ
        apply countP_lt_countP (a := next) _ (mem_allIds next)
        · simp [isUnmet, hnext]
        · simp [isUnmet, moveOn]
        · intro id
          simp only [isUnmet, moveOn, meet, List.contains_eq_mem, List.mem_cons]
          grind

/-- Losing a reservation leaves fewer that may still be lost. -/
theorem lose_eq_ok {w w' : Walk} {failure : Failure} (h : w.lose failure = .ok w') :
    w'.pending = w.pending ∧
      w'.maxRecoveries - w'.recoveries < w.maxRecoveries - w.recoveries := by
  unfold lose at h
  split at h
  · simp only [Except.ok.injEq] at h
    subst h
    exact ⟨rfl, by simp only; omega⟩
  · simp at h

end Walk

end Baseboard.Sel
