import Baseboard.Command
import Baseboard.Failure
import Baseboard.Controller.DeviceId
import Baseboard.Controller.SelfTest
import Baseboard.Fru.Access
import Baseboard.Sel.Info

/-!
# Baseboard.Command.Reply

What each command returns, and how the reply is read.  A reply is looked at in
two steps: a completion code other than success refuses it, whatever data it
brings, and only then is the data read.
-/

namespace Baseboard.Command

/-- What a command returns. -/
@[reducible] def Output : Command → Type
  | getDeviceId => DeviceId
  | coldReset => Unit
  | getSelfTestResults => SelfTest
  | getChassisStatus => ChassisStatus
  | chassisControl _ => Unit
  | getSelInfo => Sel.Info
  | reserveSel => Sel.Reservation
  | getSelEntry _ => Sel.Entry
  | clearSel _ _ => Sel.EraseProgress
  | getFruInventoryAreaInfo _ _ => Fru.Extent
  | readFruData _ => Fru.Chunk
  | i2cTransfer _ => List UInt8

/-- The fewest bytes of data that a successful reply has. -/
def minimum : Command → Nat
  | getDeviceId => 11
  | coldReset => 0
  | getSelfTestResults => 2
  | getChassisStatus => 3
  | chassisControl _ => 0
  | getSelInfo => 14
  | reserveSel => 2
  | getSelEntry _ => 2
  | clearSel _ _ => 1
  | getFruInventoryAreaInfo _ _ => 3
  | readFruData _ => 1
  | i2cTransfer _ => 0

/-- What the data of a reply says, and the bytes that the command leaves over;
`none` when the data is too short. -/
def read? : (c : Command) → List UInt8 → Option (c.Output × List UInt8)
  | getDeviceId, data => DeviceId.read? data
  | coldReset, data => some ((), data)
  | getSelfTestResults, data => SelfTest.read? data
  | getChassisStatus, data => ChassisStatus.read? data
  | chassisControl _, data => some ((), data)
  | getSelInfo, data => Sel.Info.read? data
  | reserveSel, data => Sel.Reservation.read? data
  | getSelEntry read, data => Sel.Entry.read? read.count.toNat data
  | clearSel _ _, data => Sel.EraseProgress.read? data
  | getFruInventoryAreaInfo _ _, data => Fru.Extent.read? data
  | readFruData read, data => Fru.Chunk.read? read.count.toNat data
  | i2cTransfer _, data => some (data, [])

/-- What the data of a reply says, and the bytes left over. -/
def decode (c : Command) (data : List UInt8) : Except Failure (c.Output × List UInt8) :=
  match c.read? data with
  | some result => .ok result
  | none => .error (.tooShort c.name c.minimum data)

/-- What a response says: its code is checked first, and bytes left over are
dropped. -/
def parse (c : Command) (response : Response) : Except Failure c.Output :=
  let code := CompletionCode.ofByte response.code
  if code.isSuccess then (c.decode response.data).map (·.1)
  else .error (.refused c.name code)

end Baseboard.Command
