import Baseboard.Bytes

/-!
# Baseboard.Controller.DeviceId

What a controller says about itself: revisions, maker, product, and the
services that it offers.
-/

namespace Baseboard

/-- The identity of a controller.  `auxiliary` holds the four bytes of the
auxiliary firmware revision, where the controller sends one. -/
structure DeviceId where
  deviceId : UInt8
  deviceRevision : UInt8
  firmwareMajor : UInt8
  firmwareMinor : UInt8
  /-- The protocol version in decimal digits, `0x02` for 2.0. -/
  protocolVersion : UInt8
  /-- The services offered, one bit each. -/
  services : UInt8
  manufacturer : UInt32
  product : UInt16
  auxiliary : Option (List UInt8)
  deriving DecidableEq, Repr

namespace DeviceId

/-- The controller keeps an event log. -/
def supportsSel (d : DeviceId) : Bool := bit d.services 2

/-- The controller keeps inventories. -/
def supportsFru (d : DeviceId) : Bool := bit d.services 3

/-- The identity at the front of the data, and what follows it.  The auxiliary
revision is read only where all four of its bytes are there; fewer bytes than
that are taken with it and not kept. -/
def read? : List UInt8 → Option (DeviceId × List UInt8)
  | id :: revision :: major :: minor :: version :: services :: m0 :: m1 :: m2 :: p0 :: p1
      :: tail =>
    some (
      { deviceId := id
        deviceRevision := revision % 16
        firmwareMajor := major % 128
        firmwareMinor := minor
        protocolVersion := version
        services
        manufacturer := le24 m0 m1 m2 % 0x100000
        product := le16 p0 p1
        auxiliary := if 4 ≤ tail.length then some (tail.take 4) else none },
      tail.drop 4)
  | _ => none

end DeviceId

end Baseboard
