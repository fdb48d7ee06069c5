/-!
# Baseboard.Sel.SensorType

The names of the sensors that log events.  Types from `0xC0` on belong to the
vendor of the controller.
-/

namespace Baseboard.Sel

/-- The names of the sensor types, type 0 first. -/
def sensorTypeNames : List String :=
  ["reserved", "Temperature", "Voltage", "Current", "Fan", "Physical Security",
    "Platform Security", "Processor", "Power Supply", "Power Unit", "Cooling Device", "Other",
    "Memory", "Drive Slot / Bay", "POST Memory Resize", "System Firmwares",
    "Event Logging Disabled", "Watchdog1", "System Event", "Critical Interrupt", "Button",
    "Module / Board", "Microcontroller", "Add-in Card", "Chassis", "Chip Set", "Other FRU",
    "Cable / Interconnect", "Terminator", "System Boot Initiated", "Boot Error", "OS Boot",
    "OS Critical Stop", "Slot / Connector", "System ACPI Power State", "Watchdog2",
    "Platform Alert", "Entity Presence", "Monitor ASIC", "LAN", "Management Subsys Health",
    "Battery", "Session Audit", "Version Change", "FRU State"]

/-- The name of a sensor type; types between the table and the vendor's range
are unknown. -/
def sensorTypeName (code : UInt8) : String :=
  if 0xC0 ≤ code then "OEM" else sensorTypeNames[code.toNat]?.getD "Unknown"

end Baseboard.Sel
