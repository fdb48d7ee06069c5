import Baseboard.Bytes

/-!
# Baseboard.Text.Hex

Hexadecimal text: two lowercase digits a byte, in byte order, and the
`0x` forms of single bytes and words, which write the high byte first and keep
their leading zeros.
-/

namespace Baseboard

/-- The lowercase hexadecimal digit of a number below 16. -/
def hexDigit (n : Nat) : Char :=
  if n < 10 then Char.ofNat (0x30 + n) else Char.ofNat (0x57 + n)

/-- The two digits of a byte, high nibble first. -/
def hexDigits (b : UInt8) : List Char := [hexDigit (b.toNat / 16), hexDigit (b.toNat % 16)]

/-- The digits of a byte list, two a byte. -/
def hex (bs : List UInt8) : String := String.ofList (bs.flatMap hexDigits)

/-- A byte as `0x` and two digits. -/
def hexByte (b : UInt8) : String := "0x" ++ hex [b]

/-- A 16-bit word as `0x` and four digits. -/
def hexWord (w : UInt16) : String := "0x" ++ hex (toLE16 w).reverse

/-- A 32-bit word as `0x` and eight digits. -/
def hexLong (w : UInt32) : String := "0x" ++ hex (toLE32 w).reverse

end Baseboard
