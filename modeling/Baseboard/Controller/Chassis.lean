import Baseboard.Bytes

/-!
# Baseboard.Controller.Chassis

The power state of the chassis, and the orders that change it.
-/

namespace Baseboard

/-- What the chassis does when mains power returns. -/
inductive RestorePolicy where
  | alwaysOff
  | previous
  | alwaysOn
  | unknown
  deriving DecidableEq, Repr

/-- The policy in bits 5 and 6 of the power byte. -/
def RestorePolicy.ofPower (power : UInt8) : RestorePolicy :=
  match power / 32 % 4 with
  | 0 => alwaysOff
  | 1 => previous
  | 2 => alwaysOn
  | _ => unknown

/-- The state of the chassis. -/
structure ChassisStatus where
  powerOn : Bool
  /-- An overload, an open interlock, or a fault of the supply or its control. -/
  powerFault : Bool
  restorePolicy : RestorePolicy
  /-- What last changed the power, one bit each. -/
  lastPowerEvent : UInt8
  intrusion : Bool
  driveFault : Bool
  coolingFault : Bool
  deriving DecidableEq, Repr

namespace ChassisStatus

/-- The state at the front of the data, and what follows it.  The byte on front
panel buttons, which may come next, is left to the rest. -/
def read? : List UInt8 → Option (ChassisStatus × List UInt8)
  | power :: event :: misc :: rest =>
    some (
      { powerOn := bit power 0
        powerFault := bit power 1 || bit power 2 || bit power 3 || bit power 4
        restorePolicy := RestorePolicy.ofPower power
        lastPowerEvent := event % 32
        intrusion := bit misc 0
        driveFault := bit misc 2
        coolingFault := bit misc 3 },
      rest)
  | _ => none

end ChassisStatus

/-- An order that changes the power state. -/
inductive ChassisControl where
  | powerDown
  | powerUp
  | powerCycle
  | hardReset
  | pulseDiagnostic
  | acpiSoft
  deriving DecidableEq, Repr

/-- The number of an order on the wire. -/
def ChassisControl.byte : ChassisControl → UInt8
  | powerDown => 0
  | powerUp => 1
  | powerCycle => 2
  | hardReset => 3
  | pulseDiagnostic => 4
  | acpiSoft => 5

end Baseboard
