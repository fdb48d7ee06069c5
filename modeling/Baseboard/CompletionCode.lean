import Baseboard.Text.Hex

/-!
# Baseboard.CompletionCode

The first byte of every response tells how the controller fared.  Zero is
success; the other values split into generic codes, codes that a single command
defines, and values without a fixed meaning.

Main statement: every byte reads back from its code (`CompletionCode.byte_ofByte`).
-/

namespace Baseboard

/-- How a command ended.  `unknown` keeps a byte as it came and is never equal
to a named code, even to the one of the same byte. -/
inductive CompletionCode where
  | ok
  | fruDeviceNotPresent
  | fruDeviceBusy
  | nodeBusy
  | invalidCommand
  | invalidCommandForLun
  | processingTimeout
  | outOfSpace
  | reservationCancelled
  | requestDataTruncated
  | requestDataLengthInvalid
  | requestDataFieldLengthExceeded
  | parameterOutOfRange
  | cannotReturnRequestedBytes
  | requestedDataNotPresent
  | invalidDataField
  | illegalForSensorOrRecord
  | responseNotProvided
  | duplicatedRequest
  | sdrInUpdateMode
  | firmwareUpdateMode
  | bmcInitializing
  | destinationUnavailable
  | insufficientPrivilege
  | notSupportedInPresentState
  | subFunctionDisabled
  | unspecified
  | unknown (byte : UInt8)
  deriving DecidableEq, Repr

namespace CompletionCode

/-- The code of a byte. -/
def ofByte (b : UInt8) : CompletionCode :=
  match b with
  | 0x00 => ok
  | 0x80 => fruDeviceNotPresent
  | 0x81 => fruDeviceBusy
  | 0xC0 => nodeBusy
  | 0xC1 => invalidCommand
  | 0xC2 => invalidCommandForLun
  | 0xC3 => processingTimeout
  | 0xC4 => outOfSpace
  | 0xC5 => reservationCancelled
  | 0xC6 => requestDataTruncated
  | 0xC7 => requestDataLengthInvalid
  | 0xC8 => requestDataFieldLengthExceeded
  | 0xC9 => parameterOutOfRange
  | 0xCA => cannotReturnRequestedBytes
  | 0xCB => requestedDataNotPresent
  | 0xCC => invalidDataField
  | 0xCD => illegalForSensorOrRecord
  | 0xCE => responseNotProvided
  | 0xCF => duplicatedRequest
  | 0xD0 => sdrInUpdateMode
  | 0xD1 => firmwareUpdateMode
  | 0xD2 => bmcInitializing
  | 0xD3 => destinationUnavailable
  | 0xD4 => insufficientPrivilege
  | 0xD5 => notSupportedInPresentState
  | 0xD6 => subFunctionDisabled
  | 0xFF => unspecified
  | other => unknown other

/-- The byte of a code. -/
def byte : CompletionCode → UInt8
  | ok => 0x00
  | fruDeviceNotPresent => 0x80
  | fruDeviceBusy => 0x81
  | nodeBusy => 0xC0
  | invalidCommand => 0xC1
  | invalidCommandForLun => 0xC2
  | processingTimeout => 0xC3
  | outOfSpace => 0xC4
  | reservationCancelled => 0xC5
  | requestDataTruncated => 0xC6
  | requestDataLengthInvalid => 0xC7
  | requestDataFieldLengthExceeded => 0xC8
  | parameterOutOfRange => 0xC9
  | cannotReturnRequestedBytes => 0xCA
  | requestedDataNotPresent => 0xCB
  | invalidDataField => 0xCC
  | illegalForSensorOrRecord => 0xCD
  | responseNotProvided => 0xCE
  | duplicatedRequest => 0xCF
  | sdrInUpdateMode => 0xD0
  | firmwareUpdateMode => 0xD1
  | bmcInitializing => 0xD2
  | destinationUnavailable => 0xD3
  | insufficientPrivilege => 0xD4
  | notSupportedInPresentState => 0xD5
  | subFunctionDisabled => 0xD6
  | unspecified => 0xFF
  | unknown b => b

/-- Only zero is success. -/
def isSuccess (c : CompletionCode) : Bool := c.byte == 0x00

/-- Generic codes start at `0xC0`. -/
def isGeneric (c : CompletionCode) : Bool := 0xC0 ≤ c.byte

/-- Codes from `0x80` to `0xBE` belong to the command that was sent. -/
def isCommandSpecific (c : CompletionCode) : Bool := 0x80 ≤ c.byte && c.byte ≤ 0xBE

/-- The fixed description, for the codes that have one. -/
def description? : CompletionCode → Option String
  | ok => some "Command Completed Normally"
  | fruDeviceNotPresent => some "Requested FRU Device Not Present"
  | fruDeviceBusy => some "FRU Device Busy"
  | nodeBusy => some "Node Busy"
  | invalidCommand => some "Invalid Command"
  | invalidCommandForLun => some "Command invalid for given LUN"
  | processingTimeout => some "Timeout"
  | outOfSpace => some "Out of space"
  | reservationCancelled => some "Reservation Canceled or Invalid Reservation ID"
  | requestDataTruncated => some "Request data truncated"
  | requestDataLengthInvalid => some "Request data length invalid"
  | requestDataFieldLengthExceeded => some "Request data field length limit exceeded"
  | parameterOutOfRange => some "Parameter out of range"
  | cannotReturnRequestedBytes => some "Cannot return number of requested data bytes"
  | requestedDataNotPresent => some "Requested Sensor, data, or record not present"
  | invalidDataField => some "Invalid data field in Request"
  | illegalForSensorOrRecord => some "Command illegal for specified sensor or record type"
  | responseNotProvided => some "Command response could not be provided"
  | duplicatedRequest => some "Cannot execute duplicated request"
  | sdrInUpdateMode => some "SDR Repository in update mode"
  | firmwareUpdateMode => some "Device in firmware update mode"
  | bmcInitializing => some "BMC initialization or initialization agent in progress"
  | destinationUnavailable => some "Destination unavailable"
  | insufficientPrivilege => some "Cannot execute command due to insufficient privilege level"
  | notSupportedInPresentState => some "Command not supported in present state"
  | subFunctionDisabled => some "Command sub-function has been disabled or is unavailable"
  | unspecified => some "Unspecified error"
  | unknown _ => none

/-- The description, or the byte where there is none. -/
def text (c : CompletionCode) : String := c.description?.getD (hexByte c.byte)

/-- Reading a byte as a code loses nothing. -/
@[simp] theorem byte_ofByte (b : UInt8) : (ofByte b).byte = b := by
  unfold ofByte
  split <;> rfl

/-- A byte reads as success only when it is zero. -/
theorem isSuccess_ofByte (b : UInt8) : (ofByte b).isSuccess = (b == 0) := by
  simp [isSuccess]

end CompletionCode

end Baseboard
