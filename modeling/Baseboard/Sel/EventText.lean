import Baseboard.Text.Hex

/-!
# Baseboard.Sel.EventText

The wording of log events.  An event has a type, which picks a table, and an
offset into that table: thresholds that were crossed, states that many kinds of
sensor share, or states of one sensor type.
-/

namespace Baseboard.Sel

/-- Thresholds that a reading crossed. -/
def thresholdEvents : List String :=
  ["Lower Non-critical going low", "Lower Non-critical going high", "Lower Critical going low",
    "Lower Critical going high", "Lower Non-recoverable going low",
    "Lower Non-recoverable going high", "Upper Non-critical going low",
    "Upper Non-critical going high", "Upper Critical going low", "Upper Critical going high",
    "Upper Non-recoverable going low", "Upper Non-recoverable going high"]

/-- The states that sensors of many types share, for the event types from
`0x02` on. -/
def genericEvents : List (List String) :=
  [["Transition to Idle", "Transition to Active", "Transition to Busy"],
    ["State Deasserted", "State Asserted"],
    ["Predictive Failure deasserted", "Predictive Failure asserted"],
    ["Limit Not Exceeded", "Limit Exceeded"],
    ["Performance Met", "Performance Lags"],
    ["Transition to OK", "Transition to Non-critical from OK",
      "Transition to Critical from less severe",
      "Transition to Non-recoverable from less severe",
      "Transition to Non-critical from more severe",
      "Transition to Critical from Non-recoverable", "Transition to Non-recoverable", "Monitor",
      "Informational"],
    ["Device Absent", "Device Present"],
    ["Device Disabled", "Device Enabled"],
    ["Transition to Running", "Transition to In Test", "Transition to Power Off",
      "Transition to On Line", "Transition to Off Line", "Transition to Off Duty",
      "Transition to Degraded", "Transition to Power Save", "Install Error"],
    ["Fully Redundant", "Redundancy Lost", "Redundancy Degraded",
      "Non-redundant: Sufficient from Redundant", "Non-redundant: Sufficient from Insufficient",
      "Non-redundant: Insufficient Resources", "Redundancy Degraded from Fully Redundant",
      "Redundancy Degraded from Non-redundant"],
    ["D0 Power State", "D1 Power State", "D2 Power State", "D3 Power State"]]

/-- The states of one sensor type, where it has states of its own. -/
def sensorEvents? (sensorType : UInt8) : Option (List String) :=
  match sensorType with
  | 0x05 => some
    ["General Chassis intrusion", "Drive Bay intrusion", "I/O Card area intrusion",
      "Processor area intrusion", "System unplugged from LAN", "Unauthorized dock",
      "FAN area intrusion"]
  | 0x07 => some
    ["IERR", "Thermal Trip", "FRB1/BIST failure", "FRB2/Hang in POST failure",
      "FRB3/Processor Startup/Init failure", "Configuration Error",
      "SM BIOS Uncorrectable CPU-complex Error", "Presence detected", "Disabled",
      "Terminator presence detected", "Throttled", "Uncorrectable machine check exception",
      "Correctable machine check error"]
  | 0x08 => some
    ["Presence detected", "Failure detected", "Predictive failure", "Power Supply AC lost",
      "AC lost or out-of-range", "AC out-of-range, but present", "Configuration error",
      "Power Supply Inactive"]
  | 0x0C => some
    ["Correctable ECC", "Uncorrectable ECC", "Parity", "Memory Scrub Failed",
      "Memory Device Disabled", "Correctable ECC logging limit reached", "Presence Detected",
      "Configuration Error", "Spare", "Throttled", "Critical Overtemperature"]
  | 0x10 => some
    ["Correctable memory error logging disabled", "Event logging disabled",
      "Log area reset/cleared", "All event logging disabled", "Log full", "Log almost full",
      "Correctable Machine Check Error Logging Disabled"]
  | 0x12 => some
    ["System Reconfigured", "OEM System boot event", "Undetermined system hardware failure",
      "Entry added to auxiliary log", "PEF Action", "Timestamp Clock Sync"]
  | 0x14 => some
    ["Power Button pressed", "Sleep Button pressed", "Reset Button pressed", "FRU latch open",
      "FRU service request button"]
  | _ => none

/-- The wording that the tables have for an event. -/
def eventText? (eventType sensorType offset : UInt8) : Option String :=
  if eventType = 0x01 then thresholdEvents[offset.toNat]?
  else if 0x02 ≤ eventType ∧ eventType ≤ 0x0C then
    genericEvents[eventType.toNat - 2]?.bind fun events => events[offset.toNat]?
  else if eventType = 0x6F then
    (sensorEvents? sensorType).bind fun events => events[offset.toNat]?
  else none

/-- Whether an event type belongs to the vendor of the controller. -/
def isVendorEvent (eventType : UInt8) : Bool := 0x70 ≤ eventType && eventType ≤ 0x7F

/-- The wording of an event; the type of a vendor's event is all that is told
of it, and an event that no table has is described by its numbers. -/
def eventText (eventType sensorType offset : UInt8) : String :=
  if isVendorEvent eventType then "OEM event type " ++ hexByte eventType
  else (eventText? eventType sensorType offset).getD
    ("Unknown event type " ++ hexByte eventType ++ " offset " ++ hexByte offset)

end Baseboard.Sel
