import Baseboard.Fru.Inventory

/-!
# Baseboard.Proofs.Fru.Span

How an inventory comes to its areas.  An area is the front of the bytes from its start on
that declares itself one (`AreaKind.span_eq_ok_iff`), and what it says is read off these
bytes alone (`ChassisArea.decode_eq`, `BoardArea.decode_eq`, `ProductArea.decode_eq`).

Main statements: where an area is found (`areaAt_eq_some_iff`), and that an inventory is its
header and the areas which the header places (`Inventory.decode_eq_ok_iff`).
-/

namespace Baseboard.Fru

/-! ## Cutting an area out -/

/-- The bytes of an area of some kind, with a byte behind its fixed ones. -/
abbrev AreaKind.Span (kind : AreaKind) := { bytes : List UInt8 // kind.fieldsStart < bytes.length }

/-- Bytes with the version of an area, as many as the area declares, are cut to
that length when it leaves room for a field. -/
theorem AreaKind.span_eq_ok {kind : AreaKind} {version length : UInt8} {rest bytes : List UInt8}
    (hfits : 8 * length.toNat ≤ (version :: length :: rest).length) (hversion : version % 16 = 1)
    (hroom : kind.fieldsStart < 8 * length.toNat)
    (hbytes : (version :: length :: rest).take (8 * length.toNat) = bytes)
    (h : kind.fieldsStart < bytes.length) :
    kind.span (version :: length :: rest) = .ok ⟨bytes, h⟩ := by
  subst hbytes
  rw [AreaKind.span, dif_neg (Nat.not_lt.mpr hfits), if_neg (not_not_intro hversion),
    dif_neg (Nat.not_le.mpr hroom)]

/-- Whether bytes are an area as it declares itself: with the version of an area, and as
many as they say. -/
def Declared (bytes : List UInt8) : Prop :=
  ∃ version length rest, bytes = version :: length :: rest ∧ version % 16 = 1 ∧
    bytes.length = 8 * length.toNat

/-- What is cut out is the part of the buffer that declares itself an area. -/
theorem AreaKind.span_eq_ok_iff {kind : AreaKind} {buf : List UInt8} {span : kind.Span} :
    kind.span buf = .ok span ↔ Declared span.val ∧ span.val <+: buf := by
  obtain ⟨bytes, hstart⟩ := span
  have htwo := kind.two_lt_fieldsStart
  constructor
  · intro h
    unfold AreaKind.span at h
    split at h
    · next version length rest =>
      by_cases hfits : (version :: length :: rest).length < 8 * length.toNat
      · rw [dif_pos hfits] at h
        contradiction
      by_cases hversion : version % 16 = 1
      · by_cases hroom : 8 * length.toNat ≤ kind.fieldsStart
        · rw [dif_neg hfits, if_neg (not_not_intro hversion), dif_pos hroom] at h
          contradiction
        · rw [dif_neg hfits, if_neg (not_not_intro hversion), dif_neg hroom] at h
          cases h
          have hlength := List.length_take_of_le (Nat.le_of_not_lt hfits)
          obtain ⟨n, hn⟩ : ∃ n, 8 * length.toNat = n + 2 :=
            ⟨8 * length.toNat - 2, by omega⟩
          have htake : (version :: length :: rest).take (8 * length.toNat) =
              version :: length :: rest.take n := by
            rw [hn]
            rfl
          exact ⟨⟨version, length, rest.take n, htake, hversion, hlength⟩,
            List.take_prefix _ _⟩
      · rw [dif_neg hfits, if_pos hversion] at h
        contradiction
    · contradiction
  · rintro ⟨⟨version, length, rest, rfl, hversion, hlength⟩, tail, rfl⟩
    have hfits : 8 * length.toNat ≤ (version :: length :: (rest ++ tail)).length := by
      rw [← hlength, ← List.cons_append, ← List.cons_append, List.length_append]
      exact Nat.le_add_right _ _
    have htake : (version :: length :: (rest ++ tail)).take (8 * length.toNat) =
        version :: length :: rest := by
      rw [← hlength, ← List.cons_append, ← List.cons_append, List.take_left]
    exact AreaKind.span_eq_ok hfits hversion (hlength ▸ hstart) htake hstart

/-- Bytes that declare themselves an area are cut out, whatever stands behind them. -/
theorem AreaKind.span_append {kind : AreaKind} {bytes : List UInt8} (hdeclared : Declared bytes)
    (h : kind.fieldsStart < bytes.length) (tail : List UInt8) :
    kind.span (bytes ++ tail) = .ok ⟨bytes, h⟩ :=
  AreaKind.span_eq_ok_iff.mpr ⟨hdeclared, List.prefix_append _ tail⟩

/-- An area has as many bytes as the length in it says. -/
theorem Declared.length_eq {kind : AreaKind} {bytes : List UInt8} (h : Declared bytes)
    (hstart : kind.fieldsStart < bytes.length) :
    bytes.length = 8 * (Area.ofSpan kind bytes hstart).length.toNat := by
  obtain ⟨version, length, rest, rfl, -, hlength⟩ := h
  exact hlength

/-! ## Reading it -/

/-- What the bytes of a chassis area say. -/
def ChassisArea.ofSpan (span : AreaKind.chassis.Span) : ChassisArea :=
  have : 2 < span.val.length := Nat.lt_trans (AreaKind.two_lt_fieldsStart .chassis) span.property
  { toArea := .ofSpan .chassis span.val span.property, chassisType := span.val[2] }

/-- What the bytes of a board area say. -/
def BoardArea.ofSpan (span : AreaKind.board.Span) : BoardArea :=
  have : 6 < span.val.length := span.property
  { toArea := .ofSpan .board span.val span.property
    language := span.val[2]
    manufactured := manufactureTime span.val[3] span.val[4] span.val[5] }

/-- What the bytes of a product area say. -/
def ProductArea.ofSpan (span : AreaKind.product.Span) : ProductArea :=
  have : 2 < span.val.length := Nat.lt_trans (AreaKind.two_lt_fieldsStart .product) span.property
  { toArea := .ofSpan .product span.val span.property, language := span.val[2] }

theorem ChassisArea.decode_eq (buf : List UInt8) :
    decode buf = (AreaKind.chassis.span buf).map ofSpan := by
  unfold decode
  cases AreaKind.chassis.span buf <;> rfl

theorem BoardArea.decode_eq (buf : List UInt8) :
    decode buf = (AreaKind.board.span buf).map ofSpan := by
  unfold decode
  cases AreaKind.board.span buf <;> rfl

theorem ProductArea.decode_eq (buf : List UInt8) :
    decode buf = (AreaKind.product.span buf).map ofSpan := by
  unfold decode
  cases AreaKind.product.span buf <;> rfl

/-! ## Where areas are looked for -/

section

variable {α : Type} {kind : AreaKind} {decode : List UInt8 → Except Fault α}
  {data : List UInt8} {offset : UInt8}

theorem areaAt_zero : areaAt kind decode data 0 = .ok none := rfl

theorem areaAt_beyond (hoffset : offset ≠ 0) (h : data.length ≤ 8 * offset.toNat) :
    areaAt kind decode data offset =
      .error (.areaOffset kind.name (8 * offset.toNat) data.length) := by
  rw [areaAt, areaBytes, if_neg hoffset, if_pos h]
  rfl

theorem areaAt_within (hoffset : offset ≠ 0) (h : 8 * offset.toNat < data.length) :
    areaAt kind decode data offset = (decode (data.drop (8 * offset.toNat))).map some := by
  rw [areaAt, areaBytes, if_neg hoffset, if_neg (Nat.not_le.mpr h)]
  cases hdecode : decode (data.drop (8 * offset.toNat)) <;>
    simp only [bind, Except.bind, hdecode] <;> rfl

theorem areaAt_eq_none_iff : areaAt kind decode data offset = .ok none ↔ offset = 0 := by
  constructor
  · intro h
    by_cases hoffset : offset = 0
    · exact hoffset
    by_cases hwithin : 8 * offset.toNat < data.length
    · rw [areaAt_within hoffset hwithin] at h
      cases hdecode : decode (data.drop (8 * offset.toNat)) <;> rw [hdecode] at h <;> cases h
    · rw [areaAt_beyond hoffset (Nat.le_of_not_lt hwithin)] at h
      contradiction
  · rintro rfl
    rfl

/-- An area is found where the header places it, when bytes stand there that declare
themselves an area; it is what these bytes say. -/
theorem areaAt_eq_some_iff {say : kind.Span → α} {a : α}
    (hdecode : ∀ buf, decode buf = (kind.span buf).map say) :
    areaAt kind decode data offset = .ok (some a) ↔
      offset ≠ 0 ∧ ∃ span : kind.Span, say span = a ∧ Declared span.val ∧
        span.val <+: data.drop (8 * offset.toNat) := by
  by_cases hoffset : offset = 0
  · subst hoffset
    simp [areaAt_zero]
  by_cases hwithin : 8 * offset.toNat < data.length
  · rw [areaAt_within hoffset hwithin, hdecode]
    constructor
    · intro h
      cases hcut : kind.span (data.drop (8 * offset.toNat)) with
      | error fault =>
          rw [hcut] at h
          contradiction
      | ok span =>
          rw [hcut] at h
          cases h
          exact ⟨hoffset, span, rfl, AreaKind.span_eq_ok_iff.mp hcut⟩
    · rintro ⟨-, span, rfl, hstands⟩
      rw [AreaKind.span_eq_ok_iff.mpr hstands]
      rfl
  · have hbeyond := Nat.le_of_not_lt hwithin
    rw [areaAt_beyond hoffset hbeyond]
    constructor
    · intro h
      contradiction
    · rintro ⟨-, ⟨bytes, hstart⟩, -, -, hprefix⟩
      rw [List.drop_eq_nil_of_le hbeyond, List.prefix_nil] at hprefix
      subst hprefix
      contradiction

end

/-! ## All areas -/

theorem exists_of_bind_eq_ok {ε α β : Type} {x : Except ε α} {f : α → Except ε β} {b : β}
    (h : (x >>= f) = .ok b) : ∃ a, x = .ok a ∧ f a = .ok b := by
  cases x with
  | error e => contradiction
  | ok a => exact ⟨a, rfl, h⟩

/-- An inventory is decoded when its header is and each area that the header places. -/
theorem Inventory.decode_eq_ok_iff {data : List UInt8} {v : Inventory} :
    decode data = .ok v ↔ Header.decode data = .ok v.header ∧
      areaAt .chassis ChassisArea.decode data v.header.chassis = .ok v.chassis ∧
      areaAt .board BoardArea.decode data v.header.board = .ok v.board ∧
      areaAt .product ProductArea.decode data v.header.product = .ok v.product := by
  constructor
  · intro h
    obtain ⟨header, hheader, h⟩ := exists_of_bind_eq_ok h
    obtain ⟨chassis, hchassis, h⟩ := exists_of_bind_eq_ok h
    obtain ⟨board, hboard, h⟩ := exists_of_bind_eq_ok h
    obtain ⟨product, hproduct, h⟩ := exists_of_bind_eq_ok h
    cases h
    exact ⟨hheader, hchassis, hboard, hproduct⟩
  · rintro ⟨hheader, hchassis, hboard, hproduct⟩
    simp only [decode, hheader, hchassis, hboard, hproduct, bind, Except.bind]
    rfl

end Baseboard.Fru
