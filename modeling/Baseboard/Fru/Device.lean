import Baseboard.Fru.Inventory

/-!
# Baseboard.Fru.Device

A device with an inventory: where it is, the bytes read from it, and what they
say.
-/

namespace Baseboard.Fru

/-- A device and its inventory. -/
structure Device where
  deviceId : UInt8
  lun : UInt8
  /-- The size of the inventory as the controller reports it. -/
  size : UInt16
  data : List UInt8
  inventory : Inventory
  deriving DecidableEq, Repr

namespace Device

/-- A device whose inventory holds the given bytes. -/
def ofData (deviceId lun : UInt8) (size : UInt16) (data : List UInt8) :
    Except Fault Device := do
  let inventory ← Inventory.decode data
  return { deviceId, lun, size, data, inventory }

/-- The bytes of the internal use area: from its offset up to the nearest area
behind it, or to the end of the data. -/
def internalUse (d : Device) : List UInt8 :=
  let header := d.inventory.header
  let start := 8 * header.internalUse.toNat
  if header.internalUse = 0 ∨ d.data.length ≤ start then []
  else
    let behind := header.offsets.filter (header.internalUse < ·)
    let stop := (behind.map (8 * ·.toNat)).foldr min d.data.length
    (d.data.take stop).drop start

/-- The report of a device: one line on the device, then its inventory. -/
def report (d : Device) : String :=
  s!"FRU Device {d.deviceId.toNat} (LUN {d.lun.toNat}, {d.size.toNat} bytes)\n" ++
    d.inventory.report

end Device

end Baseboard.Fru
