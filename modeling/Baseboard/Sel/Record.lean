import Baseboard.Bytes
import Baseboard.Failure
import Baseboard.Sel.EventText
import Baseboard.Sel.RecordId
import Baseboard.Sel.SensorType
import Baseboard.Sel.Timestamp
import Baseboard.Text.Column

/-!
# Baseboard.Sel.Record

The records of the event log.  A record has sixteen bytes, and its third byte
picks one of three layouts:

```
event              id id type time×4 generator×2 revision sensor number direction/type data×3
timestamped OEM    id id type time×4 maker×3 oem×6              type 0xC0 to 0xDF
plain OEM          id id type oem×13                            type 0xE0 to 0xFF
```
-/

namespace Baseboard.Sel

/-- Whether the condition of an event came or went. -/
inductive EventDirection where
  | asserted
  | deasserted
  deriving DecidableEq, Repr

/-- The wording of a direction. -/
def EventDirection.text : EventDirection → String
  | asserted => "Asserted"
  | deasserted => "Deasserted"

/-- An event of a sensor. -/
structure EventRecord where
  id : RecordId
  recordType : UInt8
  timestamp : Timestamp
  generator : UInt16
  revision : UInt8
  sensorType : UInt8
  sensorNumber : UInt8
  direction : EventDirection
  eventType : UInt8
  data1 : UInt8
  data2 : UInt8
  data3 : UInt8
  deriving DecidableEq, Repr

namespace EventRecord

/-- The offset of the event in its table: the low nibble of its first byte. -/
def offset (r : EventRecord) : UInt8 := r.data1 % 16

/-- The wording of the event. -/
def description (r : EventRecord) : String := eventText r.eventType r.sensorType r.offset

end EventRecord

/-- A record of the vendor's own, with a time, a maker and six bytes. -/
structure TimestampedOem where
  id : RecordId
  recordType : UInt8
  timestamp : Timestamp
  manufacturer : UInt32
  oem : List UInt8
  deriving DecidableEq, Repr

/-- A record of the vendor's own, with thirteen bytes. -/
structure PlainOem where
  id : RecordId
  recordType : UInt8
  oem : List UInt8
  deriving DecidableEq, Repr

/-- A record of the log. -/
inductive Record where
  | event (record : EventRecord)
  | timestampedOem (record : TimestampedOem)
  | plainOem (record : PlainOem)
  deriving DecidableEq, Repr

namespace Record

/-- The size of a record in bytes. -/
def size : Nat := 16

/-- The record at the front of some bytes. -/
def decode : List UInt8 → Except Failure Record
  | b0 :: b1 :: b2 :: b3 :: b4 :: b5 :: b6 :: b7 :: b8 :: b9 :: b10 :: b11 :: b12 :: b13
      :: b14 :: b15 :: _ =>
    if 0xE0 ≤ b2 then .ok <| .plainOem
      { id := ⟨le16 b0 b1⟩
        recordType := b2
        oem := [b3, b4, b5, b6, b7, b8, b9, b10, b11, b12, b13, b14, b15] }
    else if 0xC0 ≤ b2 then .ok <| .timestampedOem
      { id := ⟨le16 b0 b1⟩
        recordType := b2
        timestamp := .ofRaw (le32 b3 b4 b5 b6)
        manufacturer := le24 b7 b8 b9
        oem := [b10, b11, b12, b13, b14, b15] }
    else .ok <| .event
      { id := ⟨le16 b0 b1⟩
        recordType := b2
        timestamp := .ofRaw (le32 b3 b4 b5 b6)
        generator := le16 b7 b8
        revision := b9
        sensorType := b10
        sensorNumber := b11
        direction := if bit b12 7 then .deasserted else .asserted
        eventType := b12 % 128
        data1 := b13
        data2 := b14
        data3 := b15 }
  | short => .error (.tooShort "SEL Record" size short)

/-- The identifier of a record. -/
def id : Record → RecordId
  | event r => r.id
  | timestampedOem r => r.id
  | plainOem r => r.id

/-- The type byte of a record. -/
def recordType : Record → UInt8
  | event r => r.recordType
  | timestampedOem r => r.recordType
  | plainOem r => r.recordType

/-- The time of a record, where its layout has one. -/
def timestamp? : Record → Option Timestamp
  | event r => some r.timestamp
  | timestampedOem r => some r.timestamp
  | plainOem _ => none

/-- The columns of a record's report line. -/
def columns : Record → List String
  | event r =>
    [column 4 (toString r.id.number.toNat), column 25 r.timestamp.text,
      column 25 (sensorTypeName r.sensorType) ++ "(" ++ hexByte r.sensorNumber ++ ")",
      column 10 r.direction.text, r.description]
  | timestampedOem r =>
    [column 4 (toString r.id.number.toNat), column 25 r.timestamp.text,
      hexLong r.manufacturer, "0x" ++ hex r.oem]
  | plainOem r => [column 4 (toString r.id.number.toNat), "0x" ++ hex r.oem]

/-- The report line of a record. -/
def report (r : Record) : String := " | ".intercalate r.columns

end Record

end Baseboard.Sel
