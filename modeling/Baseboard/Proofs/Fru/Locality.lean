import Baseboard.Proofs.Fru.Header
import Baseboard.Proofs.Fru.Layout
import Baseboard.Proofs.Fru.Span

/-!
# Baseboard.Proofs.Fru.Locality

Which bytes of an image an inventory is read from: those of the header and, for every area
that is there, as many from its start on as the area declares (`Inventory.Covers`).

Main statement: images that agree on these bytes hold the same inventory, so what stands
behind an image or in its gaps is free (`decode_local`).
-/

namespace Baseboard.Fru

/-! ## Bytes that count -/

/-- Whether a byte lies in an area that starts at `offset`, by the length of the area. -/
def Area.Covers (a : Area) (offset : UInt8) (i : Nat) : Prop :=
  8 * offset.toNat ≤ i ∧ i < 8 * offset.toNat + 8 * a.length.toNat

/-- Whether a byte lies in the header of an inventory or in one of its areas. -/
def Inventory.Covers (v : Inventory) (i : Nat) : Prop :=
  i < Header.size ∨
    (∃ a ∈ v.chassis, a.Covers v.header.chassis i) ∨
    (∃ a ∈ v.board, a.Covers v.header.board i) ∨
    (∃ a ∈ v.product, a.Covers v.header.product i)

/-! ## Images that agree -/

theorem isPrefix_drop_of_agree {α : Type} {bytes data data' : List α} {start : Nat}
    (h : bytes <+: data.drop start)
    (hagree : ∀ i, start ≤ i → i < start + bytes.length → data'[i]? = data[i]?) :
    bytes <+: data'.drop start := by
  rw [List.prefix_iff_getElem?] at h ⊢
  intro i hi
  rw [List.getElem?_drop, hagree (start + i) (Nat.le_add_right _ _) (Nat.add_lt_add_left hi _),
    ← List.getElem?_drop]
  exact h i hi

theorem Header.decode_of_agree {header : Header} {data data' : List UInt8}
    (h : decode data = .ok header) (hagree : ∀ i < size, data'[i]? = data[i]?) :
    decode data' = .ok header := by
  have hsize := size_le_of_decode h
  have htake : data'.take size = data.take size := by
    apply List.ext_getElem?
    intro i
    rw [List.getElem?_take, List.getElem?_take]
    split
    · next hi => exact hagree i hi
    · rfl
  have hsize' : size ≤ data'.length := by
    rw [← List.length_take_of_le hsize, ← htake]
    exact List.length_take_le' _ _
  rw [← decode_take hsize', htake, decode_take hsize, h]

section

variable {α : Type} {kind : AreaKind} {decode : List UInt8 → Except Fault α}
  {say : kind.Span → α} {toArea : α → Area} {data data' : List UInt8} {offset : UInt8}

/-- An area stands in the data with all bytes that it declares, and is read off them. -/
theorem exists_span_of_areaAt {a : α} (hdecode : ∀ buf, decode buf = (kind.span buf).map say)
    (hparts : ∀ span, toArea (say span) = .ofSpan kind span.val span.property)
    (h : areaAt kind decode data offset = .ok (some a)) :
    ∃ bytes, bytes.length = 8 * (toArea a).length.toNat ∧
      bytes <+: data.drop (8 * offset.toNat) ∧
      ∀ data', bytes <+: data'.drop (8 * offset.toNat) →
        areaAt kind decode data' offset = .ok (some a) := by
  obtain ⟨hoffset, span, rfl, hdeclared, hstands⟩ := (areaAt_eq_some_iff hdecode).mp h
  refine ⟨span.val, ?_, hstands, ?_⟩
  · rw [hparts]
    exact hdeclared.length_eq span.property
  · intro data' hstands'
    exact (areaAt_eq_some_iff hdecode).mpr ⟨hoffset, span, rfl, hdeclared, hstands'⟩

theorem lt_length_of_areaAt {a : α} {i : Nat}
    (hdecode : ∀ buf, decode buf = (kind.span buf).map say)
    (hparts : ∀ span, toArea (say span) = .ofSpan kind span.val span.property)
    (h : areaAt kind decode data offset = .ok (some a)) (hi : (toArea a).Covers offset i) :
    i < data.length := by
  obtain ⟨bytes, hlength, hstands, -⟩ := exists_span_of_areaAt hdecode hparts h
  have hwithin := hstands.length_le
  rw [List.length_drop, hlength] at hwithin
  have hstart := hi.1
  have hend := hi.2
  omega

theorem areaAt_of_agree {slot : Option α}
    (hdecode : ∀ buf, decode buf = (kind.span buf).map say)
    (hparts : ∀ span, toArea (say span) = .ofSpan kind span.val span.property)
    (h : areaAt kind decode data offset = .ok slot)
    (hagree : ∀ i, (∃ a ∈ slot, (toArea a).Covers offset i) → data'[i]? = data[i]?) :
    areaAt kind decode data' offset = .ok slot := by
  cases slot with
  | none => exact areaAt_eq_none_iff.mpr (areaAt_eq_none_iff.mp h)
  | some a =>
      obtain ⟨bytes, hlength, hstands, hread⟩ := exists_span_of_areaAt hdecode hparts h
      refine hread data' (isPrefix_drop_of_agree hstands ?_)
      intro i hstart hend
      exact hagree i ⟨a, rfl, hstart, hlength ▸ hend⟩

end

namespace Inventory

variable {data data' : List UInt8} {v : Inventory}

theorem lt_length_of_covers (h : decode data = .ok v) {i : Nat} (hi : v.Covers i) :
    i < data.length := by
  obtain ⟨hheader, hchassis, hboard, hproduct⟩ := decode_eq_ok_iff.mp h
  obtain hi | ⟨a, ha, hi⟩ | ⟨a, ha, hi⟩ | ⟨a, ha, hi⟩ := hi
  · exact Nat.lt_of_lt_of_le hi (Header.size_le_of_decode hheader)
  · rw [ha] at hchassis
    exact lt_length_of_areaAt ChassisArea.decode_eq (fun _ => rfl) hchassis hi
  · rw [ha] at hboard
    exact lt_length_of_areaAt BoardArea.decode_eq (fun _ => rfl) hboard hi
  · rw [ha] at hproduct
    exact lt_length_of_areaAt ProductArea.decode_eq (fun _ => rfl) hproduct hi

theorem decode_of_agree (h : decode data = .ok v)
    (hagree : ∀ i, v.Covers i → data'[i]? = data[i]?) : decode data' = .ok v := by
  obtain ⟨hheader, hchassis, hboard, hproduct⟩ := decode_eq_ok_iff.mp h
  refine decode_eq_ok_iff.mpr ⟨?_, ?_, ?_, ?_⟩
  · exact Header.decode_of_agree hheader fun i hi => hagree i (.inl hi)
  · exact areaAt_of_agree ChassisArea.decode_eq (fun _ => rfl) hchassis fun i hi =>
      hagree i (.inr (.inl hi))
  · exact areaAt_of_agree BoardArea.decode_eq (fun _ => rfl) hboard fun i hi =>
      hagree i (.inr (.inr (.inl hi)))
  · exact areaAt_of_agree ProductArea.decode_eq (fun _ => rfl) hproduct fun i hi =>
      hagree i (.inr (.inr (.inr hi)))

end Inventory

/-! ## The bytes that an inventory is read from -/

/-- An inventory lies in the data that it is decoded from, and other data hold the same
inventory when they hold the same bytes there.  So nothing else in the data counts: not what
is put behind them, and not a byte outside the header and the areas. -/
theorem decode_local {data : List UInt8} {v : Inventory} (h : Inventory.decode data = .ok v) :
    (∀ i, v.Covers i → i < data.length) ∧
      (∀ data', (∀ i, v.Covers i → data'[i]? = data[i]?) →
        Inventory.decode data' = .ok v) ∧
      (∀ tail, Inventory.decode (data ++ tail) = .ok v) ∧
      ∀ i byte, ¬v.Covers i → Inventory.decode (data.set i byte) = .ok v := by
  refine ⟨fun i hi => v.lt_length_of_covers h hi,
    fun data' => Inventory.decode_of_agree h, ?_, ?_⟩
  · intro tail
    refine Inventory.decode_of_agree h ?_
    intro i hi
    exact List.getElem?_append_left (v.lt_length_of_covers h hi)
  · intro i byte hi
    refine Inventory.decode_of_agree h ?_
    intro j hj
    have hne : i ≠ j := fun heq => hi (heq ▸ hj)
    exact List.getElem?_set_ne hne

/-- The byte behind a board and its product is free. -/
theorem decode_boardAndProduct_set :
    Inventory.decode Layout.boardAndProductImage = .ok Layout.boardAndProduct.inventory ∧
      ¬Layout.boardAndProduct.inventory.Covers 32 ∧
      ∀ byte, Inventory.decode (Layout.boardAndProductImage.set 32 byte) =
        .ok Layout.boardAndProduct.inventory := by
  have hdecode :
      Inventory.decode Layout.boardAndProductImage = .ok Layout.boardAndProduct.inventory := by
    cbv
  have hfree : ¬Layout.boardAndProduct.inventory.Covers 32 := by
    rintro (hheader | ⟨_, ⟨⟩, -⟩ | ⟨_, ⟨⟩, hboard⟩ | ⟨_, ⟨⟩, hproduct⟩)
    · exact absurd hheader (by decide)
    · exact absurd hboard.2 (by decide)
    · exact absurd hproduct.2 (by decide)
  exact ⟨hdecode, hfree, fun byte => (decode_local hdecode).2.2.2 32 byte hfree⟩

end Baseboard.Fru
