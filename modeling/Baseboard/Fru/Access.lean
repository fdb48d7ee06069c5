import Baseboard.Bytes

/-!
# Baseboard.Fru.Access

What the controller reports about the memory behind an inventory: its size, and
what one read of it returned.
-/

namespace Baseboard.Fru

/-- The size of an inventory and how it is addressed. -/
structure Extent where
  /-- The size in bytes. -/
  size : UInt16
  /-- The device is read by words and not by bytes. -/
  byWords : Bool
  deriving DecidableEq, Repr

/-- The extent at the front of the data, and what follows it. -/
def Extent.read? : List UInt8 → Option (Extent × List UInt8)
  | lo :: hi :: access :: rest => some (⟨le16 lo hi, bit access 0⟩, rest)
  | _ => none

/-- What one read returned.  `count` is the controller's own statement; `data`
is what came, up to the number of bytes that were asked for. -/
structure Chunk where
  count : UInt8
  data : List UInt8
  deriving DecidableEq, Repr

/-- A chunk of at most `limit` bytes at the front of the data, and what follows
it. -/
def Chunk.read? (limit : Nat) : List UInt8 → Option (Chunk × List UInt8)
  | count :: rest => some (⟨count, rest.take limit⟩, rest.drop limit)
  | [] => none

end Baseboard.Fru
