import Baseboard.Bytes
import Baseboard.Fru.Fault

/-!
# Baseboard.Fru.Header

The eight bytes that start an inventory:

```
version, internal use, chassis, board, product, multi-record, pad, checksum
```

Five of them place areas, in units of eight bytes; zero stands for an area that
is absent.  The header is accepted only when its bytes sum to zero.
-/

namespace Baseboard.Fru

/-- The common header of an inventory, with its area offsets as they stand. -/
structure Header where
  version : UInt8
  internalUse : UInt8
  chassis : UInt8
  board : UInt8
  product : UInt8
  multiRecord : UInt8
  pad : UInt8
  checksum : UInt8
  deriving DecidableEq, Repr

namespace Header

/-- The size of a header in bytes. -/
def size : Nat := 8

/-- The header at the front of an inventory. -/
def decode : List UInt8 → Except Fault Header
  | b0 :: b1 :: b2 :: b3 :: b4 :: b5 :: b6 :: b7 :: _ =>
    let computed := Baseboard.checksum [b0, b1, b2, b3, b4, b5, b6]
    if b0 % 16 ≠ 1 then .error (.headerVersion (b0 % 16))
    else if computed ≠ b7 then .error (.headerChecksum computed b7)
    else .ok
      { version := b0 % 16
        internalUse := b1
        chassis := b2
        board := b3
        product := b4
        multiRecord := b5
        pad := b6
        checksum := b7 }
  | short => .error (.headerTooShort short.length)

/-- The offsets of all areas, absent ones included. -/
def offsets (h : Header) : List UInt8 :=
  [h.internalUse, h.chassis, h.board, h.product, h.multiRecord]

end Header

end Baseboard.Fru
