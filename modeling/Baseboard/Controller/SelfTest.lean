import Baseboard.Text.Hex
import Baseboard.Bytes

/-!
# Baseboard.Controller.SelfTest

The outcome of a controller's self test.
-/

namespace Baseboard

/-- The outcome of a self test. -/
inductive SelfTest where
  | passed
  | notImplemented
  /-- Data or devices are corrupted or out of reach, one bit each. -/
  | deviceError (bits : UInt8)
  | fatalError (detail : UInt8)
  /-- A code of the device's own. -/
  | deviceSpecific (code detail : UInt8)
  deriving DecidableEq, Repr

namespace SelfTest

/-- What each bit of a device error stands for, bit 0 first. -/
def deviceErrors : List String :=
  ["Controller operational firmware corrupted",
    "Controller update 'boot block' firmware corrupted",
    "Internal Use Area of BMC FRU corrupted",
    "SDR Repository empty",
    "IPMB signal lines do not respond",
    "Cannot access BMC FRU device",
    "Cannot access SDR Repository",
    "Cannot access SEL device"]

/-- The descriptions of the bits that are set, the lowest bit first. -/
def descriptions (bits : UInt8) : List String :=
  (deviceErrors.zipIdx.filter fun entry => bit bits entry.2).map (·.1)

/-- The event log is out of reach. -/
def selAccessError (bits : UInt8) : Bool := bit bits 7

/-- The controller's own inventory is out of reach. -/
def fruAccessError (bits : UInt8) : Bool := bit bits 5

/-- The wording of an outcome. -/
def text : SelfTest → String
  | passed => "No error, All Self Tests Passed"
  | notImplemented => "Self Test function not implemented in this controller"
  | deviceError bits =>
    "Corrupted or inaccessible data or devices: " ++ ", ".intercalate (descriptions bits)
  | fatalError detail =>
    "Fatal hardware error (BMC inoperative), device specific information " ++ hexByte detail
  | deviceSpecific code detail =>
    "Unknown internal failure, code " ++ hexByte code ++ "/" ++ hexByte detail

/-- The outcome at the front of the data, and what follows it. -/
def read? : List UInt8 → Option (SelfTest × List UInt8)
  | code :: detail :: rest =>
    let outcome := match code with
      | 0x55 => passed
      | 0x56 => notImplemented
      | 0x57 => deviceError detail
      | 0x58 => fatalError detail
      | other => deviceSpecific other detail
    some (outcome, rest)
  | _ => none

end SelfTest

end Baseboard
