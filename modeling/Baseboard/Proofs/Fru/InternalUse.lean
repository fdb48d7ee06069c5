import Mathlib.Order.Bounds.Basic
import Baseboard.Fru.Device
import Baseboard.Proofs.Fru.Span

/-!
# Baseboard.Proofs.Fru.InternalUse

How far the internal use area reaches.  It is the one area without a length of its own: it
starts where the header says and goes on to the next area or to the end of the data.

```
header │ product │ internal use        │ multi-record
       8         16 = 8 * u            stop
```

The areas may stand in any order, and may be said to start behind the data.  Main statement:
`Device.internalUse_exact`.
-/

namespace Baseboard.Fru

/-- Whether another area than the internal use area starts at byte `n`. -/
def Header.StartsAt (h : Header) (n : Nat) : Prop :=
  ∃ offset ∈ [h.chassis, h.board, h.product, h.multiRecord],
    offset ≠ 0 ∧ n = 8 * offset.toNat

/-- `area` is the piece of `data` from byte `start` up to the next area. -/
structure Header.Delimits (h : Header) (start : Nat) (data area : List UInt8) : Prop where
  ne_nil : area ≠ []
  exists_around : ∃ before after, data = before ++ area ++ after ∧ before.length = start
  /-- It ends with the data, or where an area behind it starts, whichever comes first. -/
  isLeast_end :
    IsLeast {n | n = data.length ∨ h.StartsAt n ∧ start < n} (start + area.length)

namespace Header

variable {h : Header} {start : Nat} {data area : List UInt8}

/-- No area starts strictly inside. -/
theorem Delimits.not_startsAt (hd : h.Delimits start data area) {n : Nat} (hstart : start < n)
    (hn : n < start + area.length) : ¬h.StartsAt n := fun hstarts =>
  absurd (hd.isLeast_end.2 (.inr ⟨hstarts, hstart⟩)) (Nat.not_le.mpr hn)

/-- One byte more would be that of another area, or there is none. -/
theorem Delimits.end_eq_or_startsAt (hd : h.Delimits start data area) :
    start + area.length = data.length ∨ h.StartsAt (start + area.length) :=
  hd.isLeast_end.1.imp_right And.left

/-- What lies between the start and the first of the possible ends is delimited. -/
theorem delimits_of_isLeast {stop : Nat} (hstart : start < data.length)
    (hstop : IsLeast {n | n = data.length ∨ h.StartsAt n ∧ start < n} stop) :
    h.Delimits start data ((data.take stop).drop start) := by
  have hle : stop ≤ data.length := hstop.2 (.inl rfl)
  have hlt : start < stop := by
    rcases hstop.1 with heq | ⟨-, hlt⟩
    · exact heq ▸ hstart
    · exact hlt
  have hlength : ((data.take stop).drop start).length = stop - start := by
    rw [List.length_drop, List.length_take, Nat.min_eq_left hle]
  have hfront : data.take start ++ (data.take stop).drop start = data.take stop := by
    have htake : (data.take stop).take start = data.take start := by
      rw [List.take_take, Nat.min_eq_left (Nat.le_of_lt hlt)]
    rw [← htake, List.take_append_drop]
  refine ⟨?_, ⟨data.take start, data.drop stop, ?_, ?_⟩, ?_⟩
  · rw [← List.length_pos_iff, hlength]
    omega
  · rw [hfront, List.take_append_drop]
  · rw [List.length_take, Nat.min_eq_left (Nat.le_of_lt hstart)]
  · rw [hlength, Nat.add_sub_cancel' (Nat.le_of_lt hlt)]
    exact hstop

/-- The areas behind the internal use area are those that are placed behind it. -/
theorem mem_behind {n : Nat} :
    n ∈ (h.offsets.filter (h.internalUse < ·)).map (8 * ·.toNat) ↔
      h.StartsAt n ∧ 8 * h.internalUse.toNat < n := by
  simp only [List.mem_map, List.mem_filter, decide_eq_true_eq, offsets, StartsAt]
  constructor
  · rintro ⟨offset, ⟨hmem, hbehind⟩, rfl⟩
    have hlt := UInt8.lt_iff_toNat_lt.mp hbehind
    have hne : offset ≠ 0 := by
      rintro rfl
      contradiction
    rcases List.mem_cons.mp hmem with rfl | hother
    · exact absurd hlt (Nat.lt_irrefl _)
    · exact ⟨⟨offset, hother, hne, rfl⟩, by omega⟩
  · rintro ⟨⟨offset, hother, -, rfl⟩, hlt⟩
    exact ⟨offset, ⟨List.mem_cons_of_mem _ hother, UInt8.lt_iff_toNat_lt.mpr (by omega)⟩,
      rfl⟩

end Header

/-- The least of some numbers and a bound. -/
theorem isLeast_foldr_min (xs : List Nat) (bound : Nat) :
    IsLeast {n | n = bound ∨ n ∈ xs} (xs.foldr min bound) := by
  induction xs with
  | nil => simp
  | cons x xs ih =>
      have hset : {n | n = bound ∨ n ∈ x :: xs} = insert x {n | n = bound ∨ n ∈ xs} := by
        ext n
        simp only [Set.mem_ofPred_eq, Set.mem_insert_iff, List.mem_cons]
        exact or_left_comm
      rw [hset, List.foldr_cons]
      exact ih.insert x

namespace Device

variable {deviceId lun : UInt8} {size : UInt16} {data : List UInt8} {d : Device}

theorem data_and_header_of_ofData (h : ofData deviceId lun size data = .ok d) :
    d.data = data ∧ Header.decode data = .ok d.inventory.header := by
  obtain ⟨inventory, hinventory, hdevice⟩ := exists_of_bind_eq_ok h
  rw [← Except.ok.inj hdevice]
  exact ⟨rfl, (Inventory.decode_eq_ok_iff.mp hinventory).1⟩

theorem internalUse_of_absent
    (h : d.inventory.header.internalUse = 0 ∨
      d.data.length ≤ 8 * d.inventory.header.internalUse.toNat) : d.internalUse = [] :=
  if_pos h

theorem delimits_internalUse (hplaced : d.inventory.header.internalUse ≠ 0)
    (hstart : 8 * d.inventory.header.internalUse.toNat < d.data.length) :
    d.inventory.header.Delimits (8 * d.inventory.header.internalUse.toNat) d.data
      d.internalUse := by
  have hthere : ¬(d.inventory.header.internalUse = 0 ∨
      d.data.length ≤ 8 * d.inventory.header.internalUse.toNat) :=
    not_or.mpr ⟨hplaced, Nat.not_le.mpr hstart⟩
  have hstop := isLeast_foldr_min
    ((d.inventory.header.offsets.filter (d.inventory.header.internalUse < ·)).map (8 * ·.toNat))
    d.data.length
  simp only [Header.mem_behind] at hstop
  rw [internalUse, if_neg hthere]
  exact Header.delimits_of_isLeast hstart hstop

/-- For whatever data a device is made, its internal use area is empty when the header
places none, or places it behind the data.  Otherwise it is all of the data from its start
to the next area or to the end: no area starts strictly inside, and it cannot be extended. -/
theorem internalUse_exact (h : ofData deviceId lun size data = .ok d) :
    ∃ header, Header.decode data = .ok header ∧
      (header.internalUse = 0 ∨ data.length ≤ 8 * header.internalUse.toNat →
        d.internalUse = []) ∧
      (header.internalUse ≠ 0 → ∀ start, start = 8 * header.internalUse.toNat →
        start < data.length →
          header.Delimits start data d.internalUse ∧
          (∀ n, start < n → n < start + d.internalUse.length → ¬header.StartsAt n) ∧
          (start + d.internalUse.length = data.length ∨
            header.StartsAt (start + d.internalUse.length))) := by
  obtain ⟨rfl, hheader⟩ := data_and_header_of_ofData h
  refine ⟨_, hheader, internalUse_of_absent, ?_⟩
  rintro hplaced _ rfl hstart
  have hdelimits := delimits_internalUse hplaced hstart
  exact ⟨hdelimits, fun n => hdelimits.not_startsAt, hdelimits.end_eq_or_startsAt⟩

/-- An inventory with the product area before the internal use area, and the multi-record
area behind it. -/
def productFirst : List UInt8 :=
  [0x01, 0x02, 0x00, 0x00, 0x01, 0x03, 0x00, 0xF9,
    0x01, 0x01, 0x00, 0xC1, 0x00, 0x00, 0x00, 0x3D,
    0xA0, 0xA1, 0xA2, 0xA3, 0xA4, 0xA5, 0xA6, 0xA7,
    0xB0, 0xB1]

/-- The internal use area ends where the multi-record area starts. -/
theorem internalUse_productFirst :
    ∃ d, ofData 0 0 26 productFirst = .ok d ∧
      d.internalUse = [0xA0, 0xA1, 0xA2, 0xA3, 0xA4, 0xA5, 0xA6, 0xA7] ∧
      ∃ header, Header.decode productFirst = .ok header ∧
        header.Delimits 16 productFirst d.internalUse ∧ header.StartsAt 24 := by
  cases hdevice : ofData 0 0 26 productFirst with
  | error fault =>
      have hok : (ofData 0 0 26 productFirst).isOk = true := by decide +kernel
      rw [hdevice] at hok
      contradiction
  | ok d =>
      have harea : (ofData 0 0 26 productFirst).map internalUse =
          .ok [0xA0, 0xA1, 0xA2, 0xA3, 0xA4, 0xA5, 0xA6, 0xA7] := by decide +kernel
      rw [hdevice] at harea
      obtain ⟨header, hheader, -, hexact⟩ := internalUse_exact hdevice
      have hplaced : header = ⟨1, 2, 0, 0, 1, 3, 0, 0xF9⟩ := (Except.ok.inj hheader).symm
      subst hplaced
      have hdelimits := hexact (by decide) 16 rfl (by decide)
      exact ⟨d, rfl, Except.ok.inj harea, _, hheader, hdelimits.1, 3, by decide, by decide, rfl⟩

end Device

end Baseboard.Fru
