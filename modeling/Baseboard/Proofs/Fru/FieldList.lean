import Baseboard.Fru.Field

/-!
# Baseboard.Proofs.Fru.FieldList

Fields read back from their encodings.

Two shapes of field write a byte that a list takes for something else: an empty
binary field writes the byte that is skipped, and a text of one byte writes the
end of the list.  Every other field is read back, its data cut to what a
type/length byte can describe (`fieldList_encode_append`).

Main statements: a list of fields reads back from its encodings, whatever follows
its end (`fieldList_flatMap_encode`, `fieldList_written`).
-/

namespace Baseboard.Fru

namespace Field

/-- Whether a list tells a field from a skipped byte and from its own end. -/
structure Listable (f : Field) : Prop where
  not_skipped : f ≠ ⟨.binary, []⟩
  not_end : ¬(f.encoding = .ascii8 ∧ f.data.length = 1)

/-- Whether a list gives a field back with all of its data. -/
structure Writable (f : Field) : Prop extends f.Listable where
  length_le : f.data.length ≤ maxLength

instance (f : Field) : Decidable f.Listable :=
  decidable_of_iff (f ≠ ⟨.binary, []⟩ ∧ ¬(f.encoding = .ascii8 ∧ f.data.length = 1))
    ⟨fun h => ⟨h.1, h.2⟩, fun h => ⟨h.1, h.2⟩⟩

instance (f : Field) : Decidable f.Writable :=
  decidable_of_iff (f.Listable ∧ f.data.length ≤ maxLength)
    ⟨fun h => ⟨h.1, h.2⟩, fun h => ⟨h.toListable, h.length_le⟩⟩

/-- A field with its data cut to what a type/length byte can describe. -/
def cut (f : Field) : Field := { f with data := f.data.take maxLength }

theorem cut_eq_self {f : Field} (h : f.data.length ≤ maxLength) : f.cut = f := by
  rw [cut, List.take_of_length_le h]

/-! ## The type/length byte -/

/-- The byte that an encoding of a field starts with. -/
def typeLength (f : Field) : UInt8 :=
  64 * f.encoding.code + UInt8.ofNat (min f.data.length maxLength)

theorem encode_eq (f : Field) : f.encode = f.typeLength :: f.cut.data := rfl

theorem length_data_cut (f : Field) : f.cut.data.length = min f.data.length maxLength := by
  rw [cut, List.length_take, Nat.min_comm]

theorem toNat_typeLength (f : Field) :
    f.typeLength.toNat = 64 * f.encoding.code.toNat + min f.data.length maxLength := by
  have hcode : f.encoding.code.toNat < 4 := by cases f.encoding <;> decide
  have hlength : min f.data.length maxLength ≤ 63 := Nat.min_le_right ..
  simp only [typeLength, UInt8.toNat_add, UInt8.toNat_mul, UInt8.toNat_ofNat', UInt8.reduceToNat]
  omega

/-- The low six bits of a type/length byte are the number of data bytes. -/
theorem toNat_typeLength_mod (f : Field) : (f.typeLength % 64).toNat = f.cut.data.length := by
  have hlength : min f.data.length maxLength ≤ 63 := Nat.min_le_right ..
  simp only [UInt8.toNat_mod, toNat_typeLength, length_data_cut, UInt8.reduceToNat]
  omega

/-- The high two bits of a type/length byte are the encoding. -/
theorem ofTypeLength_typeLength (f : Field) : Encoding.ofTypeLength f.typeLength = f.encoding := by
  have hlength : min f.data.length maxLength ≤ 63 := Nat.min_le_right ..
  have hcode : f.typeLength / 64 = f.encoding.code := by
    apply UInt8.toNat_inj.mp
    simp only [UInt8.toNat_div, toNat_typeLength, UInt8.reduceToNat]
    omega
  rw [Encoding.ofTypeLength, hcode]
  cases f.encoding <;> rfl

theorem typeLength_ne_zero {f : Field} (h : f.Listable) : f.typeLength ≠ 0 := by
  intro hzero
  have hsum := f.toNat_typeLength
  rw [hzero] at hsum
  apply h.not_skipped
  obtain ⟨encoding, data⟩ := f
  simp only [UInt8.reduceToNat, maxLength] at hsum
  have hdata : data = [] := List.length_eq_zero_iff.mp (by omega)
  cases encoding with
  | binary => rw [hdata]
  | bcdPlus | sixBitAscii | ascii8 =>
      simp only [Encoding.code, UInt8.reduceToNat] at hsum
      omega

theorem typeLength_ne_end {f : Field} (h : f.Listable) : f.typeLength ≠ endOfFields := by
  intro hend
  have hsum := f.toNat_typeLength
  rw [hend] at hsum
  apply h.not_end
  obtain ⟨encoding, data⟩ := f
  simp only [endOfFields, UInt8.reduceToNat, maxLength] at hsum
  cases encoding with
  | ascii8 =>
      simp only [Encoding.code, UInt8.reduceToNat] at hsum
      have hone : data.length = 1 := by omega
      exact ⟨rfl, hone⟩
  | binary | bcdPlus | sixBitAscii =>
      simp only [Encoding.code, UInt8.reduceToNat] at hsum
      omega

end Field

/-! ## Lists of fields -/

@[simp] theorem fieldList_end (tail : List UInt8) : fieldList (endOfFields :: tail) = [] := by
  rw [fieldList, if_pos rfl]

/-- A list gives its first field back, and reads on behind it. -/
theorem fieldList_encode_append {f : Field} (h : f.Listable) (rest : List UInt8) :
    fieldList (f.encode ++ rest) = f.cut :: fieldList rest := by
  have hfits : f.cut.data.length ≤ (f.cut.data ++ rest).length := by
    rw [List.length_append]
    omega
  rw [Field.encode_eq, List.cons_append, fieldList, if_neg (Field.typeLength_ne_end h),
    if_neg (Field.typeLength_ne_zero h)]
  simp only [f.toNat_typeLength_mod, if_pos hfits, List.take_left, List.drop_left,
    f.ofTypeLength_typeLength]
  rfl

/-- A list gives back the fields at its front, and reads on behind them. -/
theorem fieldList_flatMap_encode {fields : List Field} (h : ∀ f ∈ fields, f.Listable)
    (rest : List UInt8) :
    fieldList (fields.flatMap Field.encode ++ rest) = fields.map Field.cut ++ fieldList rest := by
  induction fields with
  | nil => rfl
  | cons f fields ih =>
      have hf : f.Listable := h f List.mem_cons_self
      have hrest : ∀ g ∈ fields, g.Listable := fun g hg => h g (List.mem_cons_of_mem f hg)
      rw [List.flatMap_cons, List.append_assoc, fieldList_encode_append hf, ih hrest]
      rfl

/-- Fields that keep their data come back as they were written. -/
theorem fieldList_writable_append {fields : List Field} (h : ∀ f ∈ fields, f.Writable)
    (rest : List UInt8) :
    fieldList (fields.flatMap Field.encode ++ rest) = fields ++ fieldList rest := by
  have hcut : fields.map Field.cut = fields := by
    rw [List.map_congr_left fun f hf => Field.cut_eq_self (h f hf).length_le, List.map_id']
  rw [fieldList_flatMap_encode fun f hf => (h f hf).toListable, hcut]

/-- So does a list that ends behind them. -/
theorem fieldList_written {fields : List Field} (h : ∀ f ∈ fields, f.Writable)
    (tail : List UInt8) :
    fieldList (fields.flatMap Field.encode ++ endOfFields :: tail) = fields := by
  rw [fieldList_writable_append h, fieldList_end, List.append_nil]

end Baseboard.Fru
