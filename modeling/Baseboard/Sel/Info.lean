import Baseboard.Bytes
import Baseboard.Sel.RecordId
import Baseboard.Sel.Timestamp

/-!
# Baseboard.Sel.Info

What the controller reports about its event log as a whole: how full it is, what
it supports, what one read of an entry returned, and how far an erasure is.
-/

namespace Baseboard.Sel

/-- The state of the log. -/
structure Info where
  /-- The version of the log in decimal digits, `0x51` for 1.5. -/
  version : UInt8
  entries : UInt16
  /-- Free space in bytes. -/
  freeSpace : UInt16
  lastAdd : Timestamp
  lastDelete : Timestamp
  supportsAllocInfo : Bool
  supportsReserve : Bool
  supportsPartialAdd : Bool
  supportsDelete : Bool
  /-- Events were dropped because the log is full. -/
  overflow : Bool
  deriving DecidableEq, Repr

/-- The state of the log at the front of the data, and what follows it. -/
def Info.read? : List UInt8 → Option (Info × List UInt8)
  | version :: e0 :: e1 :: f0 :: f1 :: a0 :: a1 :: a2 :: a3 :: d0 :: d1 :: d2 :: d3 :: flags
      :: rest =>
    some (
      { version
        entries := le16 e0 e1
        freeSpace := le16 f0 f1
        lastAdd := .ofRaw (le32 a0 a1 a2 a3)
        lastDelete := .ofRaw (le32 d0 d1 d2 d3)
        supportsAllocInfo := bit flags 0
        supportsReserve := bit flags 1
        supportsPartialAdd := bit flags 2
        supportsDelete := bit flags 3
        overflow := bit flags 7 },
      rest)
  | _ => none

/-- The reservation at the front of the data, and what follows it. -/
def Reservation.read? : List UInt8 → Option (Reservation × List UInt8)
  | lo :: hi :: rest => some (⟨le16 lo hi⟩, rest)
  | _ => none

/-- Part of a record, and the identifier of the record after it. -/
structure Entry where
  next : RecordId
  data : List UInt8
  deriving DecidableEq, Repr

/-- An entry of at most `count` bytes at the front of the data, and what follows
it. -/
def Entry.read? (count : Nat) : List UInt8 → Option (Entry × List UInt8)
  | lo :: hi :: rest => some (⟨⟨le16 lo hi⟩, rest.take count⟩, rest.drop count)
  | _ => none

/-- How far an erasure is. -/
inductive EraseProgress where
  | inProgress
  | completed
  deriving DecidableEq, Repr

/-- The progress in the low nibble of a byte. -/
def EraseProgress.ofBits (bits : UInt8) : EraseProgress :=
  if bits % 16 = 1 then completed else inProgress

/-- The progress at the front of the data, and what follows it. -/
def EraseProgress.read? : List UInt8 → Option (EraseProgress × List UInt8)
  | bits :: rest => some (ofBits bits, rest)
  | [] => none

end Baseboard.Sel
