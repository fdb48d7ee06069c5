import Baseboard.Command.Perform
import Baseboard.Fru.Assembly
import Baseboard.Fru.Device

/-!
# Baseboard.Fru.Retrieval

Reading an inventory from a controller: its size, its header, then the rest in
chunks.  A chunk read that fails, or returns nothing, ends the retrieval with
the bytes collected so far; the failures before the first chunk and after the
last one are reported as they are.
-/

namespace Baseboard.Fru

/-- Read chunks until an assembly is complete; the value is all of its bytes. -/
def Assembly.finish (device lun : UInt8) (a : Assembly) : Dialogue (List UInt8) :=
  match hnext : a.next? with
  | none => pure a.collected
  | some (offset, count) =>
    (Command.readFruData { device, lun, offset, count }).perform.handle fun
      | .error failure => .fail (.fruRead offset a.collected failure)
      | .ok chunk =>
        match hpush : a.push chunk.data with
        | .error fault => .fail (.fruRead offset a.collected (.fru fault))
        | .ok b =>
          have : b.missing < a.missing := missing_lt_of_push_eq_ok hnext hpush
          b.finish device lun
termination_by a.missing

/-- Go on with a value that may be faulty. -/
def liftFault {α : Type} (result : Except Fault α) : Dialogue α :=
  .done (result.mapError .fru)

/-- Read a device's inventory, at most `chunk` bytes at a time. -/
def readDevice (device lun chunk : UInt8) : Dialogue Device := do
  let extent ← (Command.getFruInventoryAreaInfo device lun).perform
  let header ← (Command.readFruData { device, lun, offset := 0, count := 8 }).perform
  let assembly ← liftFault (Assembly.start extent.size chunk header.data)
  let data ← assembly.finish device lun
  liftFault (Device.ofData device lun extent.size data)

end Baseboard.Fru
