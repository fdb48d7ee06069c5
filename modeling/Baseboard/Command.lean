import Baseboard.Message
import Baseboard.Controller.Chassis
import Baseboard.Sel.RecordId

/-!
# Baseboard.Command

The commands that a console sends: which subsystem each goes to, its number
there, and the bytes that carry its arguments.
-/

namespace Baseboard

/-- A read of part of a log record.  `count` is the number of bytes wanted. -/
structure EntryRead where
  reservation : Sel.Reservation
  record : Sel.RecordId
  offset : UInt8
  count : UInt8
  deriving DecidableEq, Repr

/-- The count that asks for all of a record. -/
def EntryRead.entireRecord : UInt8 := 0xFF

/-- A read of all of a record. -/
def EntryRead.whole (reservation : Sel.Reservation) (record : Sel.RecordId) : EntryRead :=
  { reservation, record, offset := 0, count := entireRecord }

/-- What an erase command asks for. -/
inductive EraseAction where
  | initiate
  | status
  deriving DecidableEq, Repr

/-- The number of an action on the wire. -/
def EraseAction.byte : EraseAction → UInt8
  | initiate => 0xAA
  | status => 0x00

/-- A read of part of an inventory. -/
structure FruRead where
  device : UInt8
  lun : UInt8
  offset : UInt16
  count : UInt8
  deriving DecidableEq, Repr

/-- A transfer on a bus behind the controller; without bytes to write it reads
`readCount` bytes. -/
structure I2cTransfer where
  bus : UInt8
  /-- The target's address in bits 1 to 7. -/
  address : UInt8
  readCount : UInt8
  offset : UInt8
  write : List UInt8
  deriving DecidableEq, Repr

/-- A command with its arguments. -/
inductive Command where
  | getDeviceId
  | coldReset
  | getSelfTestResults
  | getChassisStatus
  | chassisControl (control : ChassisControl)
  | getSelInfo
  | reserveSel
  | getSelEntry (read : EntryRead)
  | clearSel (reservation : Sel.Reservation) (action : EraseAction)
  | getFruInventoryAreaInfo (device lun : UInt8)
  | readFruData (read : FruRead)
  | i2cTransfer (transfer : I2cTransfer)
  deriving DecidableEq, Repr

namespace Command

/-- The name of a command in messages. -/
def name : Command → String
  | getDeviceId => "Get Device ID"
  | coldReset => "Cold Reset"
  | getSelfTestResults => "Get Self Test Results"
  | getChassisStatus => "Get Chassis Status"
  | chassisControl _ => "Chassis Control"
  | getSelInfo => "Get SEL Info"
  | reserveSel => "Reserve SEL"
  | getSelEntry _ => "Get SEL Entry"
  | clearSel _ _ => "Clear SEL"
  | getFruInventoryAreaInfo _ _ => "Get FRU Inventory Area Info"
  | readFruData _ => "Read FRU Data"
  | i2cTransfer _ => "Wistron OpenBMC I2C Read Write"

/-- The subsystem that a command goes to. -/
def function : Command → NetworkFunction
  | getDeviceId | coldReset | getSelfTestResults => .app
  | getChassisStatus | chassisControl _ => .chassis
  | getSelInfo | reserveSel | getSelEntry _ | clearSel _ _ => .storage
  | getFruInventoryAreaInfo _ _ | readFruData _ => .storage
  | i2cTransfer _ => .oem 0x30

/-- The number of a command within its subsystem. -/
def number : Command → UInt8
  | getDeviceId => 0x01
  | coldReset => 0x02
  | getSelfTestResults => 0x04
  | getChassisStatus => 0x01
  | chassisControl _ => 0x02
  | getSelInfo => 0x40
  | reserveSel => 0x42
  | getSelEntry _ => 0x43
  | clearSel _ _ => 0x47
  | getFruInventoryAreaInfo _ _ => 0x10
  | readFruData _ => 0x11
  | i2cTransfer _ => 0x25

/-- The logical unit that a command is meant for, as it was given. -/
def lun : Command → UInt8
  | getFruInventoryAreaInfo _ lun => lun
  | readFruData read => read.lun
  | _ => 0

/-- The address that a command is sent to. -/
def address (c : Command) : Address := .request c.function c.lun

/-- The bytes that confirm an erasure. -/
def eraseMarker : List UInt8 := [0x43, 0x4C, 0x52]

/-- The bytes that carry the arguments of a command. -/
def data : Command → List UInt8
  | chassisControl control => [control.byte]
  | getSelEntry read =>
    toLE16 read.reservation.token ++ toLE16 read.record.number ++ [read.offset, read.count]
  | clearSel reservation action => toLE16 reservation.token ++ eraseMarker ++ [action.byte]
  | getFruInventoryAreaInfo device _ => [device]
  | readFruData read => read.device :: toLE16 read.offset ++ [read.count]
  | i2cTransfer t => t.bus :: t.address :: t.readCount :: t.offset :: t.write
  | _ => []

/-- The request that sends a command. -/
def request (c : Command) : Request := ⟨c.address, c.number, c.data⟩

/-- The bytes of a command: address, number, arguments. -/
def encode (c : Command) : List UInt8 := c.request.bytes

end Command

end Baseboard
