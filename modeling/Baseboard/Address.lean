import Baseboard.Bytes

/-!
# Baseboard.Address

Where a message goes: the network function names a subsystem of the
controller, the logical unit a part of it, and one bit tells responses from
requests.  All three share the first byte of a message: `Address.byte` writes it and
`Address.ofByte?` reads it.
-/

namespace Baseboard

/-- A subsystem of the controller.  Codes from `0x30` to `0x3E` belong to the
vendor of the controller. -/
inductive NetworkFunction where
  | chassis
  | bridge
  | sensorEvent
  | app
  | firmware
  | storage
  | transport
  | group
  | oemGroup
  | oem (code : UInt8)
  deriving DecidableEq, Repr

namespace NetworkFunction

/-- The even six-bit code that requests carry; a vendor code is cut to six even
bits. -/
def requestCode : NetworkFunction → UInt8
  | chassis => 0x00
  | bridge => 0x02
  | sensorEvent => 0x04
  | app => 0x06
  | firmware => 0x08
  | storage => 0x0A
  | transport => 0x0C
  | group => 0x2C
  | oemGroup => 0x2E
  | oem code => code &&& 0x3E

/-- The function of a six-bit code, with the direction bit ignored; `none` for
the reserved codes. -/
def ofCode? (code : UInt8) : Option NetworkFunction :=
  match code &&& 0x3E with
  | 0x00 => some chassis
  | 0x02 => some bridge
  | 0x04 => some sensorEvent
  | 0x06 => some app
  | 0x08 => some firmware
  | 0x0A => some storage
  | 0x0C => some transport
  | 0x2C => some group
  | 0x2E => some oemGroup
  | vendor => if 0x30 ≤ vendor then some (oem vendor) else none

end NetworkFunction

/-- A network function, a logical unit and a direction. -/
structure Address where
  function : NetworkFunction
  lun : Fin 4
  response : Bool
  deriving DecidableEq, Repr

namespace Address

/-- The address of a request; only the low two bits of `lun` count. -/
def request (function : NetworkFunction) (lun : UInt8) : Address where
  function := function
  lun := ⟨lun.toNat % 4, Nat.mod_lt _ (by decide)⟩
  response := false

/-- The address that answers to `a` come from. -/
def toResponse (a : Address) : Address := { a with response := true }

/-- The message byte: the code in the high six bits with the direction as its
lowest, then the two bits of the logical unit. -/
def byte (a : Address) : UInt8 :=
  4 * (a.function.requestCode + if a.response then 1 else 0) + UInt8.ofNat a.lun.val

/-- The address in a message byte, `none` when its code is reserved. -/
def ofByte? (b : UInt8) : Option Address :=
  (NetworkFunction.ofCode? (b / 4)).map fun function =>
    { function, lun := ⟨b.toNat % 4, Nat.mod_lt _ (by decide)⟩, response := bit b 2 }

end Address

end Baseboard
