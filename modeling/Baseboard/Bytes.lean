/-!
# Baseboard.Bytes

Byte-list plumbing for the controller's messages: little-endian words of two,
three and four bytes, single bits, and the zero checksum that closes every
inventory structure.

Main statements: `le16` reads back what `toLE16` writes (`le16_toLE16`), and writing a
word gives the bytes that it was read from (`toLE16_le16`, `toLE24_le24`, `toLE32_le32`);
appending its checksum makes a list sum to zero (`byteSum_append_checksum`).
-/

namespace Baseboard

/-! ## Bits and little-endian words -/

/-- Bit `i` of a byte, counted from the least significant. -/
def bit (b : UInt8) (i : Nat) : Bool := b.toNat.testBit i

/-- A 16-bit word from its bytes, low byte first. -/
def le16 (b0 b1 : UInt8) : UInt16 := UInt16.ofNat (b0.toNat + 256 * b1.toNat)

/-- A 24-bit word from its bytes, low byte first. -/
def le24 (b0 b1 b2 : UInt8) : UInt32 :=
  UInt32.ofNat (b0.toNat + 256 * b1.toNat + 65536 * b2.toNat)

/-- A 32-bit word from its bytes, low byte first. -/
def le32 (b0 b1 b2 b3 : UInt8) : UInt32 :=
  UInt32.ofNat (b0.toNat + 256 * b1.toNat + 65536 * b2.toNat + 16777216 * b3.toNat)

/-- The two bytes of a word, low byte first. -/
def toLE16 (w : UInt16) : List UInt8 := [UInt8.ofNat w.toNat, UInt8.ofNat (w.toNat / 256)]

/-- The three low bytes of a word, low byte first. -/
def toLE24 (w : UInt32) : List UInt8 :=
  [UInt8.ofNat w.toNat, UInt8.ofNat (w.toNat / 256), UInt8.ofNat (w.toNat / 65536)]

/-- The four bytes of a word, low byte first. -/
def toLE32 (w : UInt32) : List UInt8 :=
  [UInt8.ofNat w.toNat, UInt8.ofNat (w.toNat / 256), UInt8.ofNat (w.toNat / 65536),
    UInt8.ofNat (w.toNat / 16777216)]

theorem toNat_le16 (b0 b1 : UInt8) : (le16 b0 b1).toNat = b0.toNat + 256 * b1.toNat := by
  have h0 := b0.toNat_lt
  have h1 := b1.toNat_lt
  simp only [le16, UInt16.toNat_ofNat']
  omega

theorem toNat_le24 (b0 b1 b2 : UInt8) :
    (le24 b0 b1 b2).toNat = b0.toNat + 256 * b1.toNat + 65536 * b2.toNat := by
  have h0 := b0.toNat_lt
  have h1 := b1.toNat_lt
  have h2 := b2.toNat_lt
  simp only [le24, UInt32.toNat_ofNat']
  omega

theorem toNat_le32 (b0 b1 b2 b3 : UInt8) :
    (le32 b0 b1 b2 b3).toNat =
      b0.toNat + 256 * b1.toNat + 65536 * b2.toNat + 16777216 * b3.toNat := by
  have h0 := b0.toNat_lt
  have h1 := b1.toNat_lt
  have h2 := b2.toNat_lt
  have h3 := b3.toNat_lt
  simp only [le32, UInt32.toNat_ofNat']
  omega

/-- A word reads back from its own two bytes. -/
theorem le16_toLE16 (w : UInt16) :
    le16 (UInt8.ofNat w.toNat) (UInt8.ofNat (w.toNat / 256)) = w := by
  apply UInt16.toNat_inj.mp
  have h := w.toNat_lt
  rw [toNat_le16, UInt8.toNat_ofNat', UInt8.toNat_ofNat']
  omega

/-- A byte is known from any number that agrees with it modulo 256. -/
theorem ofNat_eq_of_mod_eq {n : Nat} {b : UInt8} (h : n % 256 = b.toNat) : UInt8.ofNat n = b := by
  apply UInt8.toNat_inj.mp
  rw [UInt8.toNat_ofNat']
  exact h

/-- The bytes of a word are those that it was made of. -/
theorem toLE16_le16 (b0 b1 : UInt8) : toLE16 (le16 b0 b1) = [b0, b1] := by
  have h0 := b0.toNat_lt
  have h1 := b1.toNat_lt
  rw [toLE16, toNat_le16, ofNat_eq_of_mod_eq (b := b0) (by omega),
    ofNat_eq_of_mod_eq (b := b1) (by omega)]

theorem toLE24_le24 (b0 b1 b2 : UInt8) : toLE24 (le24 b0 b1 b2) = [b0, b1, b2] := by
  have h0 := b0.toNat_lt
  have h1 := b1.toNat_lt
  have h2 := b2.toNat_lt
  rw [toLE24, toNat_le24, ofNat_eq_of_mod_eq (b := b0) (by omega),
    ofNat_eq_of_mod_eq (b := b1) (by omega), ofNat_eq_of_mod_eq (b := b2) (by omega)]

theorem toLE32_le32 (b0 b1 b2 b3 : UInt8) : toLE32 (le32 b0 b1 b2 b3) = [b0, b1, b2, b3] := by
  have h0 := b0.toNat_lt
  have h1 := b1.toNat_lt
  have h2 := b2.toNat_lt
  have h3 := b3.toNat_lt
  rw [toLE32, toNat_le32, ofNat_eq_of_mod_eq (b := b0) (by omega),
    ofNat_eq_of_mod_eq (b := b1) (by omega), ofNat_eq_of_mod_eq (b := b2) (by omega),
    ofNat_eq_of_mod_eq (b := b3) (by omega)]

/-! ## Fronts of a list -/

/-- What stands right behind the front of a list prolongs the front. -/
theorem isPrefix_append_of_drop {α : Type} {front part whole : List α} (hfront : front <+: whole)
    (hpart : part <+: whole.drop front.length) : front ++ part <+: whole := by
  obtain ⟨rest, rfl⟩ := hfront
  rw [List.drop_left] at hpart
  exact (List.prefix_append_right_inj front).mpr hpart

/-! ## Zero checksums -/

/-- The sum of the bytes modulo 256. -/
def byteSum (bs : List UInt8) : UInt8 := bs.foldr (· + ·) 0

/-- The byte that brings the sum of `bs` and itself to zero modulo 256. -/
def checksum (bs : List UInt8) : UInt8 := 0 - byteSum bs

@[simp] theorem byteSum_nil : byteSum [] = 0 := rfl

@[simp] theorem byteSum_cons (b : UInt8) (bs : List UInt8) :
    byteSum (b :: bs) = b + byteSum bs := rfl

@[simp] theorem byteSum_append (xs ys : List UInt8) :
    byteSum (xs ++ ys) = byteSum xs + byteSum ys := by
  induction xs with
  | nil => simp
  | cons b bs ih => simp [ih, UInt8.add_assoc]

/-- A list followed by its checksum sums to zero. -/
theorem byteSum_append_checksum (bs : List UInt8) : byteSum (bs ++ [checksum bs]) = 0 := by
  rw [byteSum_append, byteSum_cons, byteSum_nil, UInt8.add_zero, checksum,
    UInt8.sub_eq_add_neg, UInt8.zero_add, UInt8.add_right_neg]

/-- A byte closes a list to zero exactly when it is the list's checksum. -/
theorem eq_checksum_iff (bs : List UInt8) (c : UInt8) :
    c = checksum bs ↔ byteSum (bs ++ [c]) = 0 := by
  constructor
  · rintro rfl
    exact byteSum_append_checksum bs
  · intro h
    rw [byteSum_append, byteSum_cons, byteSum_nil, UInt8.add_zero] at h
    rw [checksum, ← h, UInt8.add_comm (byteSum bs) c, UInt8.add_sub_cancel]

end Baseboard
