import Baseboard.Proofs.Sel.Fetch

/-!
# Baseboard.Proofs.Sel.Encoding

Records written back to their bytes.  Nothing of the sixteen bytes of a record is lost
when they are read: `Record.encode` writes each layout field by field, and what it
writes of a record that was read is what was there.  So records are equal just when
their bytes are, and only the type byte decides which layout a record has.

Main statement: `Record.decode_lossless`.
-/

namespace Baseboard.Sel

/-! ## Layouts -/

/-- The layouts of records. -/
inductive RecordLayout where
  | event
  | timestampedOem
  | plainOem
  deriving DecidableEq, Repr

/-- The layout that goes with a type byte. -/
def RecordLayout.ofType (b : UInt8) : RecordLayout :=
  if 0xC0 ≤ b ∧ b ≤ 0xDF then timestampedOem
  else if 0xE0 ≤ b ∧ b ≤ 0xFF then plainOem
  else event

namespace RecordLayout

theorem ofType_of_ge {b : UInt8} (h : 0xE0 ≤ b) : ofType b = plainOem := by
  have hmin : 224 ≤ b.toNat := UInt8.le_iff_toNat_le.mp h
  have hmax : b ≤ 0xFF := UInt8.le_iff_toNat_le.mpr (Nat.le_of_lt_succ b.toNat_lt)
  have habove : ¬ b ≤ 0xDF := by
    intro hle
    have hle' : b.toNat ≤ 223 := UInt8.le_iff_toNat_le.mp hle
    omega
  rw [ofType, if_neg fun hb => habove hb.2, if_pos ⟨h, hmax⟩]

theorem ofType_of_between {b : UInt8} (h : 0xC0 ≤ b) (h' : ¬ 0xE0 ≤ b) :
    ofType b = timestampedOem := by
  have hlt : b.toNat < 224 := UInt8.lt_iff_toNat_lt.mp (UInt8.not_le.mp h')
  have hmax : b ≤ 0xDF := UInt8.le_iff_toNat_le.mpr (Nat.le_of_lt_succ hlt)
  rw [ofType, if_pos ⟨h, hmax⟩]

theorem ofType_of_lt {b : UInt8} (h : ¬ 0xC0 ≤ b) (h' : ¬ 0xE0 ≤ b) : ofType b = event := by
  rw [ofType, if_neg fun hb => h hb.1, if_neg fun hb => h' hb.1]

end RecordLayout

/-! ## Writing records -/

/-- The byte that holds the direction and the type of an event. -/
def EventRecord.directionByte (r : EventRecord) : UInt8 :=
  match r.direction with
  | .asserted => r.eventType
  | .deasserted => 128 + r.eventType

namespace Record

/-- The layout of a record. -/
def layout : Record → RecordLayout
  | event _ => .event
  | timestampedOem _ => .timestampedOem
  | plainOem _ => .plainOem

/-- The bytes of a record. -/
def encode : Record → List UInt8
  | event r =>
    toLE16 r.id.number ++ [r.recordType] ++ toLE32 r.timestamp.raw ++ toLE16 r.generator ++
      [r.revision, r.sensorType, r.sensorNumber, r.directionByte, r.data1, r.data2, r.data3]
  | timestampedOem r =>
    toLE16 r.id.number ++ [r.recordType] ++ toLE32 r.timestamp.raw ++ toLE24 r.manufacturer ++
      r.oem
  | plainOem r => toLE16 r.id.number ++ [r.recordType] ++ r.oem

/-- The top bit of a byte and the rest of it make the byte. -/
theorem directionByte_eq (b : UInt8) :
    (match if bit b 7 then EventDirection.deasserted else .asserted with
      | .asserted => b % 128
      | .deasserted => 128 + b % 128) = b := by
  have hlt := b.toNat_lt
  have hbit : bit b 7 = decide (128 ≤ b.toNat) := by
    rw [bit, Nat.testBit_eq_decide_div_mod_eq]
    exact decide_eq_decide.mpr (by omega)
  have hmod : (b % 128).toNat = b.toNat % 128 := UInt8.toNat_mod b 128
  apply UInt8.toNat_inj.mp
  by_cases htop : 128 ≤ b.toNat
  · rw [hbit, decide_eq_true htop]
    change (128 + b % 128).toNat = b.toNat
    rw [UInt8.toNat_add, hmod]
    change (128 + b.toNat % 128) % 256 = b.toNat
    omega
  · rw [hbit, decide_eq_false htop]
    change (b % 128).toNat = b.toNat
    omega

/-- A record that was read has the layout of its type byte, and is written as the bytes
that it was read from. -/
theorem encode_of_decode {data : List UInt8} {record : Record} (h : decode data = .ok record) :
    record.encode = data.take size ∧ data[2]? = some record.recordType ∧
      record.layout = .ofType record.recordType := by
  unfold decode at h
  split at h
  · split at h
    · next hplain =>
      cases h
      refine ⟨?_, rfl, (RecordLayout.ofType_of_ge hplain).symm⟩
      simp only [encode, toLE16_le16]
      rfl
    · next hplain =>
      split at h
      · next htimed =>
        cases h
        refine ⟨?_, rfl, (RecordLayout.ofType_of_between htimed hplain).symm⟩
        simp only [encode, toLE16_le16, Timestamp.raw_ofRaw, toLE32_le32, toLE24_le24]
        rfl
      · next htimed =>
        cases h
        refine ⟨?_, rfl, (RecordLayout.ofType_of_lt htimed hplain).symm⟩
        simp only [encode, toLE16_le16, Timestamp.raw_ofRaw, toLE32_le32,
          EventRecord.directionByte, directionByte_eq]
        rfl
  · contradiction

/-! ## Reading records -/

/-- Only the first sixteen bytes are read. -/
theorem decode_take (data : List UInt8) : decode (data.take size) = decode data := by
  by_cases hsize : size ≤ data.length
  · unfold size at hsize
    iterate 16
      rcases data with _ | ⟨_, data⟩
      · simp at hsize
    rfl
  · rw [List.take_of_length_le (by omega)]

/-- Fewer bytes are no record. -/
theorem decode_of_lt {data : List UInt8} (h : data.length < size) :
    decode data = .error (.tooShort "SEL Record" size data) := by
  unfold decode
  split
  · simp only [size, List.length_cons] at h
    omega
  · rfl

/-- Bytes are read as the same record just when they begin with the same sixteen. -/
theorem decode_eq_iff {data : List UInt8} (h : size ≤ data.length) (other : List UInt8) :
    decode other = decode data ↔ other.take size = data.take size := by
  constructor
  · intro heq
    obtain ⟨record, hrecord⟩ := exists_decode_eq_ok h
    rw [hrecord] at heq
    rw [← (encode_of_decode heq).1, (encode_of_decode hrecord).1]
  · intro heq
    rw [← decode_take other, heq, decode_take]

/-- Sixteen bytes and more are read as a record, which depends on the first sixteen only,
tells them all, and has the layout that goes with the third of them.  Fewer bytes are
reported as too short. -/
theorem decode_lossless (data : List UInt8) :
    (size ≤ data.length → ∃ record, decode data = .ok record ∧
      record.encode = data.take size ∧
      (∀ other, decode other = decode data ↔ other.take size = data.take size) ∧
      ∃ recordType, data[2]? = some recordType ∧ record.recordType = recordType ∧
        record.layout = .ofType recordType) ∧
    (data.length < size →
      decode data = .error (.malformed "SEL Record" 16 data.length (hex data))) := by
  constructor
  · intro hsize
    obtain ⟨record, hrecord⟩ := exists_decode_eq_ok hsize
    obtain ⟨hbytes, htype, hlayout⟩ := encode_of_decode hrecord
    exact ⟨record, hrecord, hbytes, decode_eq_iff hsize, record.recordType, htype, rfl, hlayout⟩
  · intro hshort
    exact decode_of_lt hshort

/-- An event that went, with its direction beside its type in one byte. -/
example :
    let data := [1, 0, 0x02, 0, 0, 0, 0x60, 0x20, 0, 4, 8, 0x31, 0xEF, 1, 0xFF, 0xFF]
    (decode data).map encode = .ok data := rfl

end Record

end Baseboard.Sel
