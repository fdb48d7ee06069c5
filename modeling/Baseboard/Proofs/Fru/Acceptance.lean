import Baseboard.Proofs.Fru.InRange

/-!
# Baseboard.Proofs.Fru.Acceptance

Which buffers hold an inventory, and what is reported of the others.

`WellFormed` says it of a buffer without decoding it, by the bytes at their places.  The
checks that a buffer has to pass are listed apart from each other: each finds its own
fault in a buffer (`Check.fault?`), whatever the other checks find, and `Check.inOrder`
is the order in which they count.

Main statement: a buffer is decoded exactly when it is well formed, and otherwise the
fault is the one that the first check finds (`decode_accepts`).
-/

namespace Baseboard.Fru

/-! ## Buffers that hold an inventory -/

/-- Whether an area starts at a place in a buffer: its version and its length are there,
and the buffer goes on for as many bytes as the area declares, which are not none. -/
structure HasArea (data : List UInt8) (start : Nat) : Prop where
  two_le : start + 2 ≤ data.length
  declared_ne_zero : 8 * data[start + 1].toNat ≠ 0
  declared_le : 8 * data[start + 1].toNat ≤ data.length - start
  version_eq : data[start] % 16 = 1

/-- Whether a buffer holds an inventory: it starts with a header of version 1 that sums to
zero, and an area starts wherever the header places one that is decoded. -/
structure WellFormed (data : List UInt8) : Prop where
  size_le : 8 ≤ data.length
  version_eq : data[0] % 16 = 1
  sum_eq : byteSum (data.take 8) = 0
  chassis : data[2] ≠ 0 → HasArea data (8 * data[2].toNat)
  board : data[3] ≠ 0 → HasArea data (8 * data[3].toNat)
  product : data[4] ≠ 0 → HasArea data (8 * data[4].toNat)

/-! ## Checks -/

/-- The place of the header byte that places an area. -/
def AreaKind.place : AreaKind → Nat
  | chassis => 2
  | board => 3
  | product => 4

/-- Where an area starts, for one that is there. -/
def AreaKind.start? (kind : AreaKind) (data : List UInt8) : Option Nat :=
  data[kind.place]?.bind fun offset => if offset = 0 then none else some (8 * offset.toNat)

/-- The checks that a buffer has to pass. -/
inductive Check where
  /-- The buffer has room for a header. -/
  | headerSize
  | headerVersion
  | headerSum
  /-- The area starts before the end of the data. -/
  | areaStart (kind : AreaKind)
  /-- Two bytes remain for its version and its length. -/
  | areaHead (kind : AreaKind)
  /-- It ends within the data. -/
  | areaEnd (kind : AreaKind)
  | areaVersion (kind : AreaKind)
  /-- It goes on behind its fixed bytes. -/
  | areaRoom (kind : AreaKind)

namespace Check

/-- What a check finds wrong with a buffer.  A check that needs bytes which are not there
finds nothing. -/
def fault? (data : List UInt8) : Check → Option Fault
  | headerSize => if data.length < 8 then some (.headerTooShort data.length) else none
  | headerVersion =>
    data[0]?.bind fun first =>
      if first % 16 = 1 then none else some (.headerVersion (first % 16))
  | headerSum =>
    data[7]?.bind fun stored =>
      if byteSum (data.take 8) = 0 then none
      else some (.headerChecksum (checksum (data.take 7)) stored)
  | areaStart kind =>
    (kind.start? data).bind fun start =>
      if data.length ≤ start then some (.areaOffset kind.name start data.length) else none
  | areaHead kind =>
    (kind.start? data).bind fun start =>
      if data.length - start < 2 then some (.areaTooShort kind.name 2 (data.length - start))
      else none
  | areaEnd kind =>
    (kind.start? data).bind fun start => data[start + 1]?.bind fun units =>
      if data.length - start < 8 * units.toNat then
        some (.areaLength kind.name (8 * units.toNat) (data.length - start))
      else none
  | areaVersion kind =>
    (kind.start? data).bind fun start => data[start]?.bind fun first =>
      if first % 16 = 1 then none else some (.areaVersion kind.name (first % 16))
  | areaRoom kind =>
    (kind.start? data).bind fun start => data[start + 1]?.bind fun units =>
      if 8 * units.toNat ≤ kind.fieldsStart then
        some (.noFields kind.name (8 * units.toNat) kind.fieldsStart)
      else none

/-- The checks of the header. -/
def ofHeader : List Check := [headerSize, headerVersion, headerSum]

/-- The checks of an area. -/
def ofArea (kind : AreaKind) : List Check :=
  [areaStart kind, areaHead kind, areaEnd kind, areaVersion kind, areaRoom kind]

/-- All checks, in the order in which they count. -/
def inOrder : List Check := ofHeader ++ ofArea .chassis ++ ofArea .board ++ ofArea .product

/-- What the first check that finds a fault finds. -/
def first? (checks : List Check) (data : List UInt8) : Option Fault :=
  checks.findSome? (fault? data)

theorem first?_append (xs ys : List Check) (data : List UInt8) :
    first? (xs ++ ys) data = (first? xs data).or (first? ys data) :=
  List.findSome?_append

theorem first?_eq_none {checks : List Check} {data : List UInt8} :
    first? checks data = none ↔ ∀ check ∈ checks, check.fault? data = none :=
  List.findSome?_eq_none_iff

end Check

/-! ## Faults of the decoders -/

/-- The fault in a result. -/
def faultOf {α : Type} : Except Fault α → Option Fault
  | .ok _ => none
  | .error fault => some fault

theorem faultOf_eq_some {α : Type} {result : Except Fault α} {fault : Fault} :
    faultOf result = some fault ↔ result = .error fault := by
  cases result <;> simp [faultOf]

theorem faultOf_eq_none {α : Type} {result : Except Fault α} :
    faultOf result = none ↔ ∃ a, result = .ok a := by
  cases result <;> simp [faultOf]

theorem faultOf_map {α β : Type} (f : α → β) (result : Except Fault α) :
    faultOf (result.map f) = faultOf result := by
  cases result <;> rfl

/-- A decoder in two steps, of which the second faults alike whatever the first gave,
faults in the first, or else in the second. -/
theorem faultOf_bind {α β : Type} {result : Except Fault α} {f : α → Except Fault β}
    {fault : Option Fault} (h : ∀ a, result = .ok a → faultOf (f a) = fault) :
    faultOf (result >>= f) = (faultOf result).or fault := by
  cases result with
  | error _ => rfl
  | ok a => exact h a rfl

/-! ## The first fault -/

/-- Where a header places an area. -/
def Header.offset (h : Header) : AreaKind → UInt8
  | .chassis => h.chassis
  | .board => h.board
  | .product => h.product

/-- The checks of the header find what decoding it finds. -/
theorem first?_ofHeader (data : List UInt8) :
    Check.first? Check.ofHeader data = faultOf (Header.decode data) := by
  rcases data with
    _ | ⟨b0, _ | ⟨b1, _ | ⟨b2, _ | ⟨b3, _ |
      ⟨b4, _ | ⟨b5, _ | ⟨b6, _ | ⟨b7, rest⟩⟩⟩⟩⟩⟩⟩⟩
  iterate 8 rfl
  have hsize : ¬(b0 :: b1 :: b2 :: b3 :: b4 :: b5 :: b6 :: b7 :: rest).length < 8 := by simp
  have hsum : b7 = checksum [b0, b1, b2, b3, b4, b5, b6] ↔
      byteSum ((b0 :: b1 :: b2 :: b3 :: b4 :: b5 :: b6 :: b7 :: rest).take 8) = 0 :=
    eq_checksum_iff _ b7
  simp only [Check.first?, Check.ofHeader, Check.fault?, List.findSome?_cons, if_neg hsize,
    List.getElem?_cons_zero, List.getElem?_cons_succ, Option.bind_some, Header.decode]
  by_cases hversion : b0 % 16 = 1
  · by_cases hchecksum : checksum [b0, b1, b2, b3, b4, b5, b6] = b7
    · rw [if_pos hversion, if_pos (hsum.mp hchecksum.symm), if_neg (not_not_intro hversion),
        if_neg (not_not_intro hchecksum)]
      rfl
    · have hne := mt hsum.mpr (Ne.symm hchecksum)
      rw [if_pos hversion, if_neg hne, if_neg (not_not_intro hversion), if_pos hchecksum]
      rfl
  · rw [if_neg hversion, if_pos hversion]
    rfl

theorem Header.getElem?_place {data : List UInt8} {header : Header}
    (h : decode data = .ok header) (kind : AreaKind) :
    data[kind.place]? = some (header.offset kind) := by
  unfold decode at h
  split at h
  · simp only [] at h
    split at h
    · contradiction
    · split at h
      · contradiction
      · cases h
        cases kind <;> rfl
  · contradiction

/-- The checks of an area that starts within the data find what cutting it out finds. -/
theorem first?_ofArea_of_start {kind : AreaKind} {data : List UInt8} {start : Nat}
    (hstart : kind.start? data = some start) (hwithin : start < data.length) :
    Check.first? (Check.ofArea kind) data = faultOf (kind.span (data.drop start)) := by
  have hlength : data.length - start = (data.drop start).length := List.length_drop.symm
  have hfirst : data[start]? = (data.drop start)[0]? := by rw [List.getElem?_drop, Nat.add_zero]
  have hsecond : data[start + 1]? = (data.drop start)[1]? := List.getElem?_drop.symm
  simp only [Check.first?, Check.ofArea, Check.fault?, List.findSome?_cons, hstart,
    Option.bind_some, if_neg (Nat.not_le.mpr hwithin), hlength, hfirst, hsecond]
  rcases data.drop start with _ | ⟨version, _ | ⟨units, rest⟩⟩
  · rfl
  · rfl
  have htwo : ¬(version :: units :: rest).length < 2 := by simp
  simp only [List.getElem?_cons_zero, List.getElem?_cons_succ, Option.bind_some, if_neg htwo]
  by_cases hend : (version :: units :: rest).length < 8 * units.toNat
  · rw [AreaKind.span, dif_pos hend, if_pos hend]
    rfl
  by_cases hversion : version % 16 = 1
  · by_cases hroom : 8 * units.toNat ≤ kind.fieldsStart
    · rw [AreaKind.span, dif_neg hend, if_neg hend, if_neg (not_not_intro hversion),
        if_pos hversion, dif_pos hroom, if_pos hroom]
      rfl
    · rw [AreaKind.span, dif_neg hend, if_neg hend, if_neg (not_not_intro hversion),
        if_pos hversion, dif_neg hroom, if_neg hroom]
      rfl
  · rw [AreaKind.span, dif_neg hend, if_neg hend, if_pos hversion, if_neg hversion]
    rfl

theorem start?_of_getElem? {kind : AreaKind} {data : List UInt8} {offset : UInt8}
    (h : data[kind.place]? = some offset) :
    kind.start? data = if offset = 0 then none else some (8 * offset.toNat) := by
  rw [AreaKind.start?, h, Option.bind_some]

/-- The checks of an area find what looking for it and decoding it finds. -/
theorem first?_ofArea {α : Type} {kind : AreaKind} {decode : List UInt8 → Except Fault α}
    {say : kind.Span → α} (hdecode : ∀ buf, decode buf = (kind.span buf).map say)
    {data : List UInt8} {offset : UInt8} (h : data[kind.place]? = some offset) :
    Check.first? (Check.ofArea kind) data = faultOf (areaAt kind decode data offset) := by
  have hstart := start?_of_getElem? h
  by_cases hoffset : offset = 0
  · rw [if_pos hoffset] at hstart
    subst hoffset
    simp only [Check.first?, Check.ofArea, Check.fault?, List.findSome?_cons, hstart,
      Option.bind_none]
    rfl
  rw [if_neg hoffset] at hstart
  by_cases hwithin : 8 * offset.toNat < data.length
  · rw [first?_ofArea_of_start hstart hwithin, areaAt_within hoffset hwithin, faultOf_map, hdecode,
      faultOf_map]
  · have hbeyond : data.length ≤ 8 * offset.toNat := Nat.le_of_not_lt hwithin
    simp only [Check.first?, Check.ofArea, Check.fault?, List.findSome?_cons, hstart,
      Option.bind_some, if_pos hbeyond, areaAt_beyond hoffset hbeyond]
    rfl

/-- All checks in their order find what decoding a buffer finds. -/
theorem first?_inOrder (data : List UInt8) :
    Check.first? Check.inOrder data = faultOf (Inventory.decode data) := by
  have hdecode : faultOf (Inventory.decode data) = (faultOf (Header.decode data)).or
      ((Check.first? (Check.ofArea .chassis) data).or
        ((Check.first? (Check.ofArea .board) data).or
          ((Check.first? (Check.ofArea .product) data).or none))) := by
    refine faultOf_bind fun header hheader => ?_
    have hplace := Header.getElem?_place hheader
    rw [first?_ofArea ChassisArea.decode_eq (hplace .chassis),
      first?_ofArea BoardArea.decode_eq (hplace .board),
      first?_ofArea ProductArea.decode_eq (hplace .product)]
    exact faultOf_bind fun _ _ => faultOf_bind fun _ _ => faultOf_bind fun _ _ => rfl
  simp only [hdecode, ← first?_ofHeader, Check.inOrder, Check.first?_append, Option.or_assoc,
    Option.or_none]

/-! ## Well-formed buffers -/

/-- The checks of the header find nothing in a buffer with a header. -/
theorem first?_ofHeader_eq_none {data : List UInt8} :
    Check.first? Check.ofHeader data = none ↔
      ∃ h : 8 ≤ data.length, data[0] % 16 = 1 ∧ byteSum (data.take 8) = 0 := by
  simp only [Check.first?_eq_none, Check.ofHeader, List.forall_mem_cons, Check.fault?]
  by_cases hsize : data.length < 8
  · have hshort : ¬8 ≤ data.length := Nat.not_le.mpr hsize
    simp [hsize, hshort]
  · have h0 : data[0]? = some data[0] := List.getElem?_eq_getElem (by omega)
    have h7 : data[7]? = some data[7] := List.getElem?_eq_getElem (by omega)
    simp [hsize, h0, h7, Nat.le_of_not_lt hsize]

/-- An area that counts units of eight bytes goes on behind its fixed bytes as soon as it
counts any. -/
theorem AreaKind.fieldsStart_lt_iff (kind : AreaKind) (units : UInt8) :
    kind.fieldsStart < 8 * units.toNat ↔ 8 * units.toNat ≠ 0 := by
  have hpos := kind.two_lt_fieldsStart
  have hlt : kind.fieldsStart < 8 := by cases kind <;> decide
  omega

/-- The checks of an area find nothing in a buffer where it starts. -/
theorem first?_ofArea_eq_none {kind : AreaKind} {data : List UInt8} {offset : UInt8}
    (h : data[kind.place]? = some offset) :
    Check.first? (Check.ofArea kind) data = none ↔
      (offset ≠ 0 → HasArea data (8 * offset.toNat)) := by
  have hstart := start?_of_getElem? h
  simp only [Check.first?_eq_none, Check.ofArea, List.forall_mem_cons, Check.fault?, hstart]
  by_cases hoffset : offset = 0
  · simp [hoffset]
  by_cases htwo : 8 * offset.toNat + 2 ≤ data.length
  · have h0 : data[8 * offset.toNat]? = some data[8 * offset.toNat] :=
      List.getElem?_eq_getElem (by omega)
    have h1 : data[8 * offset.toNat + 1]? = some data[8 * offset.toNat + 1] :=
      List.getElem?_eq_getElem (by omega)
    have hroom := kind.fieldsStart_lt_iff data[8 * offset.toNat + 1]
    simp only [if_neg hoffset, h0, h1, Option.bind_some, ite_eq_right_iff, ite_eq_left_iff,
      reduceCtorEq, imp_false, Nat.not_le, Nat.not_lt, Decidable.not_not, hroom]
    constructor
    · rintro ⟨-, -, hend, hversion, hunits, -⟩ -
      exact ⟨htwo, hunits, hend, hversion⟩
    · intro harea
      have harea := harea hoffset
      exact ⟨by omega, by omega, harea.declared_le, harea.version_eq, harea.declared_ne_zero,
        nofun⟩
  · have hfew : ¬(8 * offset.toNat < data.length ∧ 2 ≤ data.length - 8 * offset.toNat) := by
      omega
    simp only [if_neg hoffset, Option.bind_some, ite_eq_right_iff, reduceCtorEq, imp_false,
      Nat.not_le, Nat.not_lt]
    constructor
    · rintro ⟨hstart, hhead, -⟩
      exact absurd ⟨hstart, hhead⟩ hfew
    · intro harea
      exact absurd (harea hoffset).two_le htwo

/-- In a buffer with room for a header each area has its place there. -/
theorem getElem?_places {data : List UInt8} (h : 8 ≤ data.length) :
    data[AreaKind.chassis.place]? = some data[2] ∧ data[AreaKind.board.place]? = some data[3] ∧
      data[AreaKind.product.place]? = some data[4] :=
  ⟨List.getElem?_eq_getElem (Nat.lt_of_lt_of_le (by decide) h),
    List.getElem?_eq_getElem (Nat.lt_of_lt_of_le (by decide) h),
    List.getElem?_eq_getElem (Nat.lt_of_lt_of_le (by decide) h)⟩

/-- A buffer is well formed when no check finds anything. -/
theorem wellFormed_iff (data : List UInt8) :
    WellFormed data ↔ Check.first? Check.inOrder data = none := by
  simp only [Check.inOrder, Check.first?_append, Option.or_eq_none_iff, first?_ofHeader_eq_none]
  constructor
  · intro h
    obtain ⟨h2, h3, h4⟩ := getElem?_places h.size_le
    exact ⟨⟨⟨⟨h.size_le, h.version_eq, h.sum_eq⟩,
      (first?_ofArea_eq_none h2).mpr h.chassis⟩,
      (first?_ofArea_eq_none h3).mpr h.board⟩, (first?_ofArea_eq_none h4).mpr h.product⟩
  · rintro ⟨⟨⟨⟨hsize, hversion, hsum⟩, hchassis⟩, hboard⟩, hproduct⟩
    obtain ⟨h2, h3, h4⟩ := getElem?_places hsize
    exact ⟨hsize, hversion, hsum, (first?_ofArea_eq_none h2).mp hchassis,
      (first?_ofArea_eq_none h3).mp hboard, (first?_ofArea_eq_none h4).mp hproduct⟩

/-- Of all buffers exactly the well-formed ones are decoded, and of any other the fault is
what the first check finds that finds one.  Whatever the buffer, no decoder asks for a byte
that it does not have. -/
theorem decode_accepts (data : List UInt8) :
    ((∃ inventory, Inventory.decode data = .ok inventory) ↔ WellFormed data) ∧
      (∀ fault, Inventory.decode data = .error fault ↔
        Check.inOrder.findSome? (Check.fault? data) = some fault) ∧
      (Inventory.indexed data).run = some (Inventory.decode data) ∧
      (Header.indexed data).run = some (Header.decode data) ∧
      (ChassisArea.indexed data).run = some (ChassisArea.decode data) ∧
      (BoardArea.indexed data).run = some (BoardArea.decode data) ∧
      (ProductArea.indexed data).run = some (ProductArea.decode data) := by
  have hfirst := first?_inOrder data
  refine ⟨?_, fun fault => ?_, Inventory.run_indexed data, Header.run_indexed data,
    ChassisArea.run_indexed data, BoardArea.run_indexed data, ProductArea.run_indexed data⟩
  · rw [wellFormed_iff, hfirst, faultOf_eq_none]
  · rw [← Check.first?, hfirst, faultOf_eq_some]

/-- A board area that starts at the last byte is too short, and its product area, which
would start behind the data, is not looked for. -/
example : Inventory.decode [0x01, 0x00, 0x00, 0x01, 0x02, 0x00, 0x00, 0xFC, 0x01] =
    .error (.areaTooShort "Board Info" 2 1) := rfl

end Baseboard.Fru
