import Baseboard.Text.Hex

/-!
# Baseboard.Sel.RecordId

The two numbers that guard a walk through the event log: record identifiers,
which chain the records, and reservations, which the controller cancels when
the log changes.
-/

namespace Baseboard.Sel

/-- The identifier of a log record. -/
structure RecordId where
  number : UInt16
  deriving DecidableEq, Repr

namespace RecordId

/-- Asks for the first record of the log. -/
def first : RecordId := ⟨0x0000⟩

/-- Asks for the last record; as the identifier that follows a record it ends
the log. -/
def last : RecordId := ⟨0xFFFF⟩

/-- Whether an identifier ends the log. -/
def isLast (id : RecordId) : Bool := id = last

/-- The identifier as `0x` and four digits. -/
def text (id : RecordId) : String := hexWord id.number

end RecordId

/-- A reservation of the log, by the token that the controller gave out. -/
structure Reservation where
  token : UInt16
  deriving DecidableEq, Repr

end Baseboard.Sel
