import Baseboard.Command.Perform
import Baseboard.Sel.Walk

/-!
# Baseboard.Sel.Reading

Reading the event log: single records, the log from a record on, and windows of
it.

A record is asked for as a whole.  A controller that returns less is asked for
the missing bytes until the record is complete.  When the controller cancels the
reservation, the bytes read so far are dropped, a new reservation is made, and
the same record is asked for again.
-/

namespace Baseboard.Sel

/-! ## One record -/

/-- Ask for the bytes that a record still lacks, until it has all of them. -/
def completeRecord (reservation : Reservation) (id : RecordId) (data : List UInt8) :
    Dialogue (List UInt8) :=
  if data.length < Record.size then
    (Command.getSelEntry
      { reservation
        record := id
        offset := UInt8.ofNat data.length
        count := UInt8.ofNat (Record.size - data.length) }).perform.andThen fun entry =>
      if entry.data.length = 0 then
        .fail (.tooShort "Get SEL Entry" Record.size data)
      else
        completeRecord reservation id (data ++ entry.data)
  else
    pure data
termination_by Record.size - data.length
decreasing_by
  rw [List.length_append]
  omega

/-- The identifier that follows a record, and the bytes of the record. -/
def fetch (reservation : Reservation) (id : RecordId) : Dialogue (RecordId × List UInt8) := do
  let entry ← (Command.getSelEntry (.whole reservation id)).perform
  let data ← completeRecord reservation id entry.data
  return (entry.next, data)

/-! ## The log -/

/-- The reservation that a walk holds, or a new one. -/
def Walk.reserve (w : Walk) : Dialogue Reservation :=
  match w.reservation with
  | some reservation => pure reservation
  | none => Command.reserveSel.perform

/-- Walk on to the end; the value is the list of all records accepted. -/
def Walk.finish (w : Walk) : Dialogue (List Record) :=
  if hdone : w.done = true then pure w.records
  else
    w.reserve.andThen fun reservation =>
      (fetch reservation w.cursor).handle fun
        | .ok (next, data) =>
          match haccept : (w.reserved reservation).accept next data with
          | (.error failure, _) => .fail failure
          | (.ok (), w') =>
            have : w'.pending < w.pending :=
              pending_lt_of_accept_eq_ok (w := w.reserved reservation)
                (Bool.eq_false_iff.mpr hdone) haccept
            w'.finish
        | .error failure =>
          if failure.isReservationCancelled then
            match hlose : (w.reserved reservation).lose failure with
            | .error failure => .fail failure
            | .ok w' =>
              have := lose_eq_ok hlose
              w'.finish
          else .fail failure
termination_by (w.pending, w.maxRecoveries - w.recoveries)
decreasing_by
  · exact Prod.Lex.left _ _ (by assumption)
  · rw [this.1]
    exact Prod.Lex.right _ this.2

/-- All records of the log. -/
def readLog (maxRecoveries : Nat) : Dialogue (List Record) :=
  (Walk.start .first maxRecoveries).finish

/-! ## Windows -/

/-- The largest number of records that can be counted. -/
def maxCount : Nat := 0xFFFFFFFFFFFFFFFF

/-- How many records to read for a window: to its end, or to the end of the log if
that comes first.  An end that is too far to be counted is drawn nearer. -/
def windowEnd (total offset count : Nat) : Nat := min (min (offset + count) maxCount) total

/-- No log is so long that its records cannot be counted. -/
theorem windowEnd_eq {total : Nat} (h : total ≤ maxCount) (offset count : Nat) :
    windowEnd total offset count = min (offset + count) total := by
  unfold windowEnd
  omega

/-- The records numbered from `offset` on, at most `count` of them, of a log of
`total` records.  The records before them are read and dropped. -/
def readWindow (total offset count maxRecoveries : Nat) : Dialogue (List Record) := do
  if count = 0 ∨ total ≤ offset then return []
  let limit := windowEnd total offset count
  let records ← ((Walk.start .first maxRecoveries).withLimit limit).finish
  return (records.drop offset).take count

/-- A window of the log, and how many records the log has. -/
def readWindowOf (offset count maxRecoveries : Nat) : Dialogue (List Record × Nat) := do
  let info ← Command.getSelInfo.perform
  let total := info.entries.toNat
  let records ← readWindow total offset count maxRecoveries
  return (records, total)

/-- The last `count` records of the log, and how many records the log has. -/
def readLatest (count maxRecoveries : Nat) : Dialogue (List Record × Nat) := do
  let info ← Command.getSelInfo.perform
  let total := info.entries.toNat
  let records ← readWindow total (total - count) count maxRecoveries
  return (records, total)

end Baseboard.Sel
