import Baseboard.Proofs.Fru.Span
import Baseboard.Proofs.Fru.Supply

/-!
# Baseboard.Proofs.Fru.Corruption

A byte that went wrong.  The bytes of a header, and those of an area whose checksum is
right, sum to zero modulo 256; a single byte that becomes another one takes the sum away
from zero, whatever the byte and wherever it stands (`byteSum_set_ne`).

So a header is refused once one of its bytes was changed, and an area is refused or its
checksum is found wrong.  Only the length of an area is left out, because it decides which
bytes are the area.  Main statement: `corruption_detected`.
-/

namespace Baseboard

/-! ## Sums of bytes -/

/-- The sum after a byte was changed, with the old byte put back and the new one taken
out. -/
theorem byteSum_set {bs : List UInt8} {i : Nat} {old : UInt8} (new : UInt8)
    (h : bs[i]? = some old) : byteSum (bs.set i new) + old = byteSum bs + new := by
  induction bs generalizing i with
  | nil => simp at h
  | cons x xs ih =>
      cases i with
      | zero =>
          have hx : x = old := by simpa using h
          simp only [List.set_cons_zero, byteSum_cons, hx]
          ac_rfl
      | succ j =>
          have hxs := ih (i := j) (by simpa using h)
          simp only [List.set_cons_succ, byteSum_cons, UInt8.add_assoc, hxs]

/-- A list in which one byte was changed has another sum. -/
theorem byteSum_set_ne {bs : List UInt8} {i : Nat} {new : UInt8} (hi : i < bs.length)
    (hne : bs[i]? ≠ some new) : byteSum (bs.set i new) ≠ byteSum bs := by
  have hold : bs[i]? = some bs[i] := List.getElem?_eq_getElem hi
  intro hsum
  have hset := byteSum_set new hold
  rw [hsum] at hset
  have heq : bs[i] = new := UInt8.add_right_inj (byteSum bs) |>.mp hset
  exact hne (by rw [hold, heq])

namespace Fru

/-! ## Headers -/

namespace Header

/-- The bytes of a valid header sum to zero. -/
theorem byteSum_of_decode {data : List UInt8} {header : Header}
    (h : decode data = .ok header) : byteSum (data.take size) = 0 := by
  unfold decode at h
  split at h
  · next b0 b1 b2 b3 b4 b5 b6 b7 rest =>
    by_cases hversion : b0 % 16 = 1
    · by_cases hchecksum : Baseboard.checksum [b0, b1, b2, b3, b4, b5, b6] = b7
      · exact (eq_checksum_iff [b0, b1, b2, b3, b4, b5, b6] b7).mp hchecksum.symm
      · simp [hversion, hchecksum] at h
    · simp [hversion] at h
  · contradiction

/-- A header in which one byte was changed is not valid. -/
theorem exists_fault_of_set {data : List UInt8} {header : Header} {i : Nat} {b : UInt8}
    (h : decode data = .ok header) (hi : i < size) (hne : data[i]? ≠ some b) :
    ∃ fault, decode (data.set i b) = .error fault := by
  have hsize := size_le_of_decode h
  cases hset : decode (data.set i b) with
  | error fault => exact ⟨fault, rfl⟩
  | ok other =>
      have hlength : i < (data.take size).length := by
        rw [List.length_take]
        omega
      have hne' : (data.take size)[i]? ≠ some b := by
        rwa [List.getElem?_take_of_lt hi]
      have hsum := byteSum_set_ne hlength hne'
      rw [← List.take_set, byteSum_of_decode hset, byteSum_of_decode h] at hsum
      exact absurd rfl hsum

end Header

/-! ## Areas -/

/-- A checksum is right just when it brings the sum of the whole area to zero. -/
theorem Area.checksumValid_ofSpan_iff {kind : AreaKind} {bytes : List UInt8}
    (h : kind.fieldsStart < bytes.length) :
    (Area.ofSpan kind bytes h).checksumValid = true ↔ byteSum bytes = 0 := by
  have hne : bytes ≠ [] := List.ne_nil_of_length_pos (by omega)
  have hlast : bytes[bytes.length - 1] = bytes.getLast hne :=
    (List.getLast_eq_getElem hne).symm
  have hbytes : bytes.dropLast ++ [bytes.getLast hne] = bytes := List.dropLast_concat_getLast hne
  simp only [Area.checksumValid, Area.ofSpan, hlast, decide_eq_true_eq]
  rw [eq_checksum_iff, hbytes]

/-- The bytes of an area with one of them changed, other than the length. -/
theorem Declared.set {bytes : List UInt8} {i : Nat} {b : UInt8} (h : Declared bytes)
    (hi : i ≠ 1) (hversion : i = 0 → b % 16 = 1) : Declared (bytes.set i b) := by
  obtain ⟨version, length, rest, rfl, hversion', hlength⟩ := h
  rcases i with _ | _ | i
  · exact ⟨b, length, rest, rfl, hversion rfl, hlength⟩
  · contradiction
  · exact ⟨version, length, rest.set i b, rfl, hversion', by simpa using hlength⟩

/-- An area with another version is refused for it. -/
theorem AreaKind.span_set_zero {kind : AreaKind} {buf : List UInt8} {span : kind.Span}
    {b : UInt8} (h : kind.span buf = .ok span) (hversion : b % 16 ≠ 1) :
    kind.span (buf.set 0 b) = .error (.areaVersion kind.name (b % 16)) := by
  obtain ⟨⟨version, length, rest, hbytes, -, hlength⟩, tail, rfl⟩ :=
    AreaKind.span_eq_ok_iff.mp h
  have hfits : ¬ (b :: length :: (rest ++ tail)).length < 8 * length.toNat := by
    rw [← hlength, hbytes]
    simp only [List.length_cons, List.length_append]
    omega
  have hset : (span.val ++ tail).set 0 b = b :: length :: (rest ++ tail) := by rw [hbytes]; rfl
  rw [hset, AreaKind.span, dif_neg hfits, if_pos hversion]

/-- How the checksum of an area guards its bytes, where `decode` reads the area and `toArea`
gives the parts that every area has. -/
structure Guarded {α : Type} (kind : AreaKind) (decode : List UInt8 → Except Fault α)
    (toArea : α → Area) : Prop where
  /-- The checksum is right just when all declared bytes sum to zero, itself included. -/
  valid_iff : ∀ buf a, decode buf = .ok a →
    ((toArea a).checksumValid = true ↔ byteSum (buf.take (8 * (toArea a).length.toNat)) = 0)
  /-- A byte that was changed makes the version wrong or the checksum. -/
  changed : ∀ buf a i b, decode buf = .ok a → (toArea a).checksumValid = true →
    i < 8 * (toArea a).length.toNat → i ≠ 1 → buf[i]? ≠ some b →
      (i = 0 ∧ decode (buf.set i b) = .error (.areaVersion kind.name (b % 16))) ∨
        ∃ a', decode (buf.set i b) = .ok a' ∧ (toArea a').checksumValid = false

section

variable {α : Type} {kind : AreaKind} {decode : List UInt8 → Except Fault α}
  {say : kind.Span → α} {toArea : α → Area} {buf : List UInt8}

theorem exists_span_of_decode {a : α} (hdecode : ∀ buf, decode buf = (kind.span buf).map say)
    (h : decode buf = .ok a) : ∃ span, kind.span buf = .ok span ∧ say span = a := by
  rw [hdecode] at h
  cases hspan : kind.span buf with
  | error fault =>
      rw [hspan] at h
      contradiction
  | ok span =>
      rw [hspan] at h
      cases h
      exact ⟨span, rfl, rfl⟩

/-- What an area consists of is the front of the buffer, of the length that it declares. -/
theorem take_of_span {span : kind.Span} (h : kind.span buf = .ok span) :
    buf.take (8 * (Area.ofSpan kind span.val span.property).length.toNat) = span.val := by
  obtain ⟨hdeclared, hprefix⟩ := AreaKind.span_eq_ok_iff.mp h
  rw [← hdeclared.length_eq span.property]
  exact (List.prefix_iff_eq_take.mp hprefix).symm

/-- Every area that is read off its own bytes is guarded by its checksum. -/
theorem guarded_of_span (hdecode : ∀ buf, decode buf = (kind.span buf).map say)
    (hparts : ∀ span, toArea (say span) = .ofSpan kind span.val span.property) :
    Guarded kind decode toArea where
  valid_iff buf a h := by
    obtain ⟨span, hspan, rfl⟩ := exists_span_of_decode hdecode h
    rw [hparts, take_of_span hspan, Area.checksumValid_ofSpan_iff]
  changed buf a i b h hvalid hi hlength hne := by
    obtain ⟨span, hspan, rfl⟩ := exists_span_of_decode hdecode h
    obtain ⟨hdeclared, tail, rfl⟩ := AreaKind.span_eq_ok_iff.mp hspan
    rw [hparts] at hvalid hi
    rw [← hdeclared.length_eq span.property] at hi
    rw [List.getElem?_append_left hi] at hne
    -- The bytes are still those of an area, with another sum, unless the version is broken.
    by_cases hversion : i = 0 → b % 16 = 1
    · right
      have hstart : kind.fieldsStart < (span.val.set i b).length := by
        rw [List.length_set]
        exact span.property
      have hset : kind.span ((span.val ++ tail).set i b) = .ok ⟨span.val.set i b, hstart⟩ := by
        refine AreaKind.span_eq_ok_iff.mpr ⟨hdeclared.set hlength hversion, tail, ?_⟩
        rw [List.set_append_left _ _ hi]
      have hsum := byteSum_set_ne hi hne
      rw [(Area.checksumValid_ofSpan_iff span.property).mp hvalid] at hsum
      refine ⟨say ⟨span.val.set i b, hstart⟩, by rw [hdecode, hset]; rfl, ?_⟩
      rw [hparts]
      exact Bool.eq_false_iff.mpr fun hright =>
        hsum ((Area.checksumValid_ofSpan_iff hstart).mp hright)
    · left
      obtain ⟨rfl, hbroken⟩ := Classical.not_imp.mp hversion
      exact ⟨rfl, by rw [hdecode, AreaKind.span_set_zero hspan hbroken]; rfl⟩

end

/-! ## Whole inventories -/

theorem Inventory.decode_of_error {data : List UInt8} {fault : Fault}
    (h : Header.decode data = .error fault) : decode data = .error fault := by
  rw [decode, h]
  rfl

/-- A header of which any byte was changed is refused, and with it the inventory and the
assembly that would start with it.  An area with a right checksum of which any byte was
changed but its length is refused or has a wrong checksum, because a checksum is right just
when all bytes of its area sum to zero. -/
theorem corruption_detected :
    (∀ data header i b, Header.decode data = .ok header → i < Header.size →
      data[i]? ≠ some b → ∃ fault, Header.decode (data.set i b) = .error fault ∧
        Inventory.decode (data.set i b) = .error fault ∧
        ∀ total chunk, Assembly.start total chunk (data.set i b) = .error fault) ∧
    Guarded .chassis ChassisArea.decode ChassisArea.toArea ∧
    Guarded .board BoardArea.decode BoardArea.toArea ∧
    Guarded .product ProductArea.decode ProductArea.toArea := by
  refine ⟨?_, guarded_of_span ChassisArea.decode_eq fun _ => rfl,
    guarded_of_span BoardArea.decode_eq fun _ => rfl,
    guarded_of_span ProductArea.decode_eq fun _ => rfl⟩
  intro data header i b hheader hi hne
  obtain ⟨fault, hfault⟩ := Header.exists_fault_of_set hheader hi hne
  exact ⟨fault, hfault, Inventory.decode_of_error hfault, fun total chunk =>
    Assembly.start_of_error hfault⟩

end Fru

end Baseboard
