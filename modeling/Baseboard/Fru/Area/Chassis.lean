import Baseboard.Fru.Area.Basic

/-!
# Baseboard.Fru.Area.Chassis

The chassis area: the type of the chassis, which has a fixed name, and fields
that are always in English.
-/

namespace Baseboard.Fru

/-! ## Chassis types -/

/-- The names of the chassis types, type 0 first. -/
def chassisTypeNames : List String :=
  ["Unspecified",
    "Other",
    "Unknown",
    "Desktop",
    "Low Profile Desktop",
    "Pizza Box",
    "Mini Tower",
    "Tower",
    "Portable",
    "LapTop",
    "Notebook",
    "Hand Held",
    "Docking Station",
    "All in One",
    "Sub Notebook",
    "Space-saving",
    "Lunch Box",
    "Main Server Chassis",
    "Expansion Chassis",
    "SubChassis",
    "Bus Expansion Chassis",
    "Peripheral Chassis",
    "RAID Chassis",
    "Rack Mount Chassis",
    "Sealed-case PC",
    "Multi-system Chassis",
    "Compact PCI",
    "Advanced TCA",
    "Blade",
    "Blade Enclosure",
    "Tablet",
    "Convertible",
    "Detachable",
    "IoT Gateway",
    "Embedded PC",
    "Mini PC",
    "Stick PC"]

/-- The name of a chassis type; types past the table are unknown. -/
def chassisTypeName (code : UInt8) : String :=
  chassisTypeNames[code.toNat]?.getD "Unknown"

/-! ## The area -/

/-- What an inventory says about the chassis. -/
structure ChassisArea extends Area where
  chassisType : UInt8
  deriving DecidableEq, Repr

namespace ChassisArea

/-- The area at the start of `buf`. -/
def decode (buf : List UInt8) : Except Fault ChassisArea := do
  let ⟨bytes, h⟩ ← AreaKind.chassis.span buf
  have : 2 < bytes.length := Nat.lt_trans (AreaKind.two_lt_fieldsStart .chassis) h
  return { toArea := .ofSpan .chassis bytes h, chassisType := bytes[2] }

/-- A chassis area is always in English. -/
def language : UInt8 := 0

/-- The value of the field at an index. -/
def value? (a : ChassisArea) (index : Nat) : Option Value := a.toArea.value? language index

def partNumber? (a : ChassisArea) : Option Value := a.value? 0

def serialNumber? (a : ChassisArea) : Option Value := a.value? 1

/-- The values of the maker's own fields. -/
def custom (a : ChassisArea) : List Value := a.toArea.custom 2 language

/-- The report of the area: its type, then its fields. -/
def report (a : ChassisArea) : String :=
  reportLine "Chassis Type" (chassisTypeName a.chassisType) ++ a.toArea.report .chassis language

end ChassisArea

end Baseboard.Fru
