import Baseboard.Text.Hex

/-!
# Baseboard.Fru.Fault

What can be wrong with the bytes of an inventory, or with a field that is to be
written into one.  Each cause carries the values that were found; `message`
words it.
-/

namespace Baseboard.Fru

/-- Why inventory bytes were refused.  Sizes and offsets count bytes. -/
inductive Fault where
  /-- The common header needs eight bytes. -/
  | headerTooShort (size : Nat)
  | headerVersion (version : UInt8)
  | headerChecksum (computed stored : UInt8)
  /-- The header places an area behind the end of the data. -/
  | areaOffset (area : String) (offset size : Nat)
  /-- Too few bytes remain to tell an area's version and length. -/
  | areaTooShort (area : String) (needed available : Nat)
  | areaVersion (area : String) (version : UInt8)
  /-- An area declares more bytes than remain. -/
  | areaLength (area : String) (declared available : Nat)
  /-- The declared length ends before the first field. -/
  | noFields (area : String) (length fieldsStart : Nat)
  /-- A read returned nothing before the inventory was complete. -/
  | emptyRead (offset : UInt16)
  /-- A type/length byte describes at most 63 bytes. -/
  | fieldTooLong (size : Nat)
  deriving DecidableEq, Repr

/-- The wording of a fault. -/
def Fault.message : Fault → String
  | headerTooShort size => s!"invalid common header size: {size}/8"
  | headerVersion version => s!"invalid common header format version: {version.toNat}"
  | headerChecksum computed stored =>
    s!"common header checksum mismatch: computed {hexByte computed}, stored {hexByte stored}"
  | areaOffset area offset size =>
    s!"{area} area offset {offset} is beyond FRU data size {size}"
  | areaTooShort area needed available => s!"invalid {area} area size: {available}/{needed}"
  | areaVersion area version => s!"invalid {area} area format version: {version.toNat}"
  | areaLength area declared available =>
    s!"invalid {area} area size: need {declared}, FRU data has {available}"
  | noFields area length fieldsStart =>
    s!"{area} area length {length} too small for fields starting at {fieldsStart}"
  | emptyRead offset => s!"empty FRU read at offset {offset.toNat}"
  | fieldTooLong size => s!"FRU field is too long: {size}/63 bytes"

end Baseboard.Fru
