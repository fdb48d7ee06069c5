import Baseboard.Proofs.Fru.FieldList

/-!
# Baseboard.Proofs.Fru.Grammar

The bytes from which a list of fields is read, said without reading them:

```
bytes  =  spread ++ stop
spread =  the encodings of the fields, with zero bytes before, between and behind them
stop   =  nothing, 0xC1 and anything, or a type/length byte that counts more data
          than is left
```

Main statement: reading gives some fields exactly when the bytes are made of them in
this way (`fieldList_eq_iff`).
-/

namespace Baseboard.Fru

/-- Bytes that hold the encodings of fields, in order, with any number of zero bytes
before, between and behind them. -/
inductive Spread : List Field → List UInt8 → Prop where
  | nil : Spread [] []
  | zero {fields : List Field} {bytes : List UInt8} (h : Spread fields bytes) :
      Spread fields (0 :: bytes)
  | field (f : Field) {fields : List Field} {bytes : List UInt8} (h : Spread fields bytes) :
      Spread (f :: fields) (f.encode ++ bytes)

/-- Bytes at which a list of fields stops. -/
inductive Stops : List UInt8 → Prop where
  | nil : Stops []
  | marked (tail : List UInt8) : Stops (endOfFields :: tail)
  /-- A field whose data would run past the end. -/
  | overrun {b : UInt8} {rest : List UInt8} (hzero : b ≠ 0) (hend : b ≠ endOfFields)
      (hlength : rest.length < (b % 64).toNat) : Stops (b :: rest)

/-! ## Fields from their bytes -/

theorem Encoding.code_ofTypeLength (b : UInt8) : (ofTypeLength b).code = b / 64 := by
  have hlt := b.toNat_lt
  unfold ofTypeLength
  split
  · next h => rw [h]; rfl
  · next h => rw [h]; rfl
  · next h => rw [h]; rfl
  · next h0 h1 h2 =>
    have hne0 : (b / 64).toNat ≠ 0 := fun h => h0 (UInt8.toNat_inj.mp h)
    have hne1 : (b / 64).toNat ≠ 1 := fun h => h1 (UInt8.toNat_inj.mp h)
    have hne2 : (b / 64).toNat ≠ 2 := fun h => h2 (UInt8.toNat_inj.mp h)
    apply UInt8.toNat_inj.mp
    simp only [Encoding.code, UInt8.toNat_div, UInt8.reduceToNat] at *
    omega

namespace Field

/-- A field that is read from a type/length byte and its data is written as these
bytes. -/
theorem encode_ofTypeLength {b : UInt8} {data : List UInt8}
    (h : data.length = (b % 64).toNat) :
    (⟨.ofTypeLength b, data⟩ : Field).encode = b :: data := by
  have hlt := b.toNat_lt
  simp only [UInt8.toNat_mod, UInt8.reduceToNat] at h
  have hcut : (⟨.ofTypeLength b, data⟩ : Field).cut = ⟨.ofTypeLength b, data⟩ :=
    cut_eq_self (by simp only [maxLength]; omega)
  have hbyte : (⟨.ofTypeLength b, data⟩ : Field).typeLength = b := by
    apply UInt8.toNat_inj.mp
    rw [toNat_typeLength, Encoding.code_ofTypeLength]
    simp only [maxLength, UInt8.toNat_div, UInt8.reduceToNat]
    omega
  rw [encode_eq, hcut, hbyte]

/-- Whatever is read from a byte that is neither skipped nor an end can be written. -/
theorem writable_ofTypeLength {b : UInt8} {data : List UInt8} (hzero : b ≠ 0)
    (hend : b ≠ endOfFields) (h : data.length = (b % 64).toNat) :
    (⟨.ofTypeLength b, data⟩ : Field).Writable := by
  have hencode := encode_ofTypeLength h
  refine ⟨⟨fun hskipped => ?_, fun ⟨hascii, hone⟩ => ?_⟩, ?_⟩
  · rw [hskipped] at hencode
    exact hzero (List.cons.inj hencode).1.symm
  · obtain ⟨x, rfl⟩ := List.length_eq_one_iff.mp hone
    have hascii' : Encoding.ofTypeLength b = .ascii8 := hascii
    rw [hascii'] at hencode
    exact hend (List.cons.inj hencode).1.symm
  · have hlt := b.toNat_lt
    simp only [UInt8.toNat_mod, UInt8.reduceToNat] at h
    simp only [maxLength]
    omega

end Field

/-! ## Reading what is spread out -/

theorem fieldList_zero (bytes : List UInt8) : fieldList (0 :: bytes) = fieldList bytes := by
  rw [fieldList, if_neg (by decide), if_pos rfl]

theorem fieldList_fits {b : UInt8} {rest : List UInt8} (hzero : b ≠ 0) (hend : b ≠ endOfFields)
    (hlength : (b % 64).toNat ≤ rest.length) :
    fieldList (b :: rest) =
      ⟨.ofTypeLength b, rest.take (b % 64).toNat⟩ ::
        fieldList (rest.drop (b % 64).toNat) := by
  rw [fieldList, if_neg hend, if_neg hzero]
  simp only [if_pos hlength]

theorem fieldList_of_stops {bytes : List UInt8} (h : Stops bytes) : fieldList bytes = [] := by
  cases h with
  | nil => rw [fieldList]
  | marked tail => exact fieldList_end tail
  | overrun hzero hend hlength =>
      rw [fieldList, if_neg hend, if_neg hzero]
      simp only [if_neg (Nat.not_le.mpr hlength)]

/-- Fields that are spread out are read, and the list goes on behind them. -/
theorem fieldList_of_spread {fields : List Field} {front : List UInt8} (h : Spread fields front)
    (hwritable : ∀ f ∈ fields, f.Writable) (rest : List UInt8) :
    fieldList (front ++ rest) = fields ++ fieldList rest := by
  induction h with
  | nil => rfl
  | zero _ ih => rw [List.cons_append, fieldList_zero, ih hwritable]
  | field f _ ih =>
      obtain ⟨hf, hfields⟩ := List.forall_mem_cons.mp hwritable
      rw [List.append_assoc, fieldList_encode_append hf.toListable, ih hfields,
        Field.cut_eq_self hf.length_le, List.cons_append]

/-! ## What was read -/

/-- Whatever the bytes, the fields that are read from them are spread out in front of
where the list stops. -/
theorem exists_spread (bytes : List UInt8) :
    (∀ f ∈ fieldList bytes, f.Writable) ∧
      ∃ front rest, bytes = front ++ rest ∧ Spread (fieldList bytes) front ∧ Stops rest := by
  fun_induction fieldList bytes with
  | case1 => exact ⟨by simp, [], [], rfl, .nil, .nil⟩
  | case2 rest => exact ⟨by simp, [], endOfFields :: rest, rfl, .nil, .marked rest⟩
  | case3 rest _ ih =>
      obtain ⟨hwritable, front, stop, rfl, hfront, hstop⟩ := ih
      exact ⟨hwritable, 0 :: front, stop, rfl, .zero hfront, hstop⟩
  | case4 b rest hend hzero length hlength ih =>
      obtain ⟨hwritable, front, stop, hrest, hfront, hstop⟩ := ih
      have hdata : (rest.take length).length = (b % 64).toNat := List.length_take_of_le hlength
      refine ⟨List.forall_mem_cons.mpr
        ⟨Field.writable_ofTypeLength hzero hend hdata, hwritable⟩, _, stop, ?_,
        .field _ hfront, hstop⟩
      rw [Field.encode_ofTypeLength hdata, List.append_assoc, ← hrest, List.cons_append,
        List.take_append_drop]
  | case5 b rest hend hzero length hlength =>
      exact ⟨by simp, [], b :: rest, rfl, .nil, .overrun hzero hend (Nat.lt_of_not_le hlength)⟩

/-- From a place in an area fields are read exactly if the bytes from there on are their
encodings, with zero bytes anywhere between them, and then bytes at which a list stops;
and each of them is a field that can be told from a zero byte and from the end of the
list.  So every list of such fields, whatever the length of their data, comes back from
its encodings with the data cut to what a type/length byte can describe. -/
theorem fieldList_eq_iff (area : List UInt8) (start : Nat) (fields : List Field) :
    (fieldList (area.drop start) = fields ↔
      (∀ f ∈ fields, f.Writable) ∧
        ∃ front rest, area.drop start = front ++ rest ∧ Spread fields front ∧ Stops rest) ∧
    ∀ (written : List Field) (tail : List UInt8), (∀ f ∈ written, f.Listable) →
      fieldList (written.flatMap Field.encode ++ endOfFields :: tail) =
        written.map Field.cut := by
  refine ⟨⟨?_, ?_⟩, fun written tail hlistable => ?_⟩
  · rintro rfl
    exact exists_spread (area.drop start)
  · rintro ⟨hwritable, front, rest, hbytes, hfront, hrest⟩
    rw [hbytes, fieldList_of_spread hfront hwritable, fieldList_of_stops hrest, List.append_nil]
  · rw [fieldList_flatMap_encode hlistable, fieldList_end, List.append_nil]

/-- An area with a text between two zero bytes and, behind them, a field of five bytes of
which only two are there. -/
def overrunArea : List UInt8 :=
  [0x01, 0x01, 0x19, 0x00, 0xC2, 0x58, 0x31, 0x00, 0x45, 0x01, 0x02]

/-- A text that is longer than a type/length byte can tell. -/
def longText : Field := ⟨.ascii8, List.replicate 64 0x41⟩

/-- The field that runs past the end is not read, and the long text is cut. -/
theorem fieldList_overrunArea :
    fieldList (overrunArea.drop 3) = [⟨.ascii8, [0x58, 0x31]⟩] ∧
      (∀ f ∈ [longText], f.Listable) ∧
      fieldList ([longText].flatMap Field.encode ++ endOfFields :: [0xEE]) = [longText.cut] := by
  have hspread : Spread [⟨.ascii8, [0x58, 0x31]⟩] [0x00, 0xC2, 0x58, 0x31, 0x00] :=
    .zero (.field ⟨.ascii8, [0x58, 0x31]⟩ (.zero .nil))
  have hstops : Stops [0x45, 0x01, 0x02] := .overrun (by decide) (by decide) (by decide)
  have hlistable : ∀ f ∈ [longText], f.Listable := by decide
  exact ⟨(fieldList_eq_iff overrunArea 3 _).1.mpr
      ⟨by decide, [0x00, 0xC2, 0x58, 0x31, 0x00], _, rfl, hspread, hstops⟩,
    hlistable, (fieldList_eq_iff overrunArea 3 []).2 [longText] [0xEE] hlistable⟩

end Baseboard.Fru
