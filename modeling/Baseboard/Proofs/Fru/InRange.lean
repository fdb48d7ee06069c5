import Baseboard.Proofs.Fru.Grammar
import Baseboard.Proofs.Fru.Header
import Baseboard.Proofs.Fru.Span
import Baseboard.Proofs.Indexing

/-!
# Baseboard.Proofs.Fru.InRange

The inventory decoders once more, with each byte taken from its place: the header's
from the places 0 to 7, the fixed bytes of an area from the places behind its start, a
field from the place of its type/length byte on.

None of these readings asks for a byte that is not there, whatever the buffer, and each
says what the decoder says (`Header.run_indexed`, `ChassisArea.run_indexed`,
`BoardArea.run_indexed`, `ProductArea.run_indexed`, `Inventory.run_indexed`).
-/

namespace Baseboard.Fru

open Indexed

/-! ## Readings by place -/

/-- The header at the front of an inventory, byte by byte. -/
def Header.indexed (data : List UInt8) : Indexed Fault Header :=
  if data.length < size then throw (.headerTooShort data.length)
  else do
    let version := (← byteAt data 0) % 16
    if version ≠ 1 then throw (.headerVersion version)
    else do
      let computed := Baseboard.checksum (← part data 0 7)
      let stored ← byteAt data 7
      if computed ≠ stored then throw (.headerChecksum computed stored)
      else return {
        version
        internalUse := ← byteAt data 1
        chassis := ← byteAt data 2
        board := ← byteAt data 3
        product := ← byteAt data 4
        multiRecord := ← byteAt data 5
        pad := ← byteAt data 6
        checksum := ← byteAt data 7 }

/-- The bytes of the area that starts `buf`, from their places. -/
def AreaKind.indexedSpan (kind : AreaKind) (buf : List UInt8) : Indexed Fault (List UInt8) :=
  if buf.length < 2 then throw (.areaTooShort kind.name 2 buf.length)
  else do
    let version := (← byteAt buf 0) % 16
    let size := 8 * (← byteAt buf 1).toNat
    if buf.length < size then throw (.areaLength kind.name size buf.length)
    else if version ≠ 1 then throw (.areaVersion kind.name version)
    else if size ≤ kind.fieldsStart then throw (.noFields kind.name size kind.fieldsStart)
    else part buf 0 size

/-- The fields from a place in an area on. -/
def indexedFields (area : List UInt8) (i : Nat) : Indexed Fault (List Field) :=
  if i < area.length then do
    let b ← byteAt area i
    if b = endOfFields then return []
    else if b = 0 then indexedFields area (i + 1)
    else
      let stop := i + 1 + (b % 64).toNat
      if area.length < stop then return []
      else do
        let data ← part area (i + 1) stop
        return ⟨.ofTypeLength b, data⟩ :: (← indexedFields area stop)
  else return []
termination_by area.length - i

/-- The common parts of an area, from their places.  An area without bytes would have
no checksum. -/
def Area.indexed (kind : AreaKind) (area : List UInt8) : Indexed Fault Area := do
  let (stored, body) := match area.getLast? with
    | some last => (last, area.dropLast)
    | none => (0, area)
  return {
    version := (← byteAt area 0) % 16
    length := ← byteAt area 1
    fields := ← indexedFields area kind.fieldsStart
    checksum := stored
    computed := Baseboard.checksum body }

/-- The chassis area at the start of `buf`, from its places. -/
def ChassisArea.indexed (buf : List UInt8) : Indexed Fault ChassisArea := do
  let area ← AreaKind.chassis.indexedSpan buf
  return { toArea := ← Area.indexed .chassis area, chassisType := ← byteAt area 2 }

/-- The board area at the start of `buf`, from its places. -/
def BoardArea.indexed (buf : List UInt8) : Indexed Fault BoardArea := do
  let area ← AreaKind.board.indexedSpan buf
  return {
    toArea := ← Area.indexed .board area
    language := ← byteAt area 2
    manufactured :=
      manufactureTime (← byteAt area 3) (← byteAt area 4) (← byteAt area 5) }

/-- The product area at the start of `buf`, from its places. -/
def ProductArea.indexed (buf : List UInt8) : Indexed Fault ProductArea := do
  let area ← AreaKind.product.indexedSpan buf
  return { toArea := ← Area.indexed .product area, language := ← byteAt area 2 }

/-- The area that the header places at `offset`, read with `decode` from there on. -/
def indexedAreaAt {α : Type} (kind : AreaKind) (decode : List UInt8 → Indexed Fault α)
    (data : List UInt8) (offset : UInt8) : Indexed Fault (Option α) :=
  let start := 8 * offset.toNat
  if offset = 0 then return none
  else if data.length ≤ start then throw (.areaOffset kind.name start data.length)
  else do
    let bytes ← part data start data.length
    return some (← decode bytes)

/-- The inventory in some bytes, from their places. -/
def Inventory.indexed (data : List UInt8) : Indexed Fault Inventory := do
  let header ← Header.indexed data
  let chassis ← indexedAreaAt .chassis ChassisArea.indexed data header.chassis
  let board ← indexedAreaAt .board BoardArea.indexed data header.board
  let product ← indexedAreaAt .product ProductArea.indexed data header.product
  return { header, chassis, board, product }

/-! ## They stay in range -/

theorem Header.run_indexed (data : List UInt8) :
    (Header.indexed data).run = some (Header.decode data) := by
  by_cases h : data.length < size
  · rw [Header.indexed, if_pos h, Header.decode_of_lt h]
    rfl
  · rw [Header.indexed, if_neg h]
    iterate 8
      rcases data with _ | ⟨_, data⟩
      · simp [size] at h
    rw [part_front (by simp)]
    simp only [byteAt_cons_zero, byteAt_cons_succ, pure_bind, Header.decode, List.take_succ_cons,
      List.take_zero]
    split
    · rfl
    · split <;> rfl

/-- An area is cut out without leaving the buffer. -/
theorem AreaKind.run_indexedSpan (kind : AreaKind) (buf : List UInt8) :
    (kind.indexedSpan buf).run = some ((kind.span buf).map Subtype.val) := by
  rcases buf with _ | ⟨version, _ | ⟨length, rest⟩⟩
  · rfl
  · rfl
  · have htwo : ¬(version :: length :: rest).length < 2 := by simp
    rw [AreaKind.indexedSpan, if_neg htwo, AreaKind.span]
    simp only [byteAt_cons_zero, byteAt_cons_succ, pure_bind]
    by_cases hfits : (version :: length :: rest).length < 8 * length.toNat
    · rw [if_pos hfits, dif_pos hfits]
      rfl
    rw [if_neg hfits, dif_neg hfits, part_front (Nat.le_of_not_lt hfits)]
    split
    · rfl
    · split <;> rfl

/-- Fields are read without leaving the area: whatever a type/length byte counts, the
data is there before it is taken. -/
theorem run_indexedFields (area : List UInt8) (i : Nat) :
    (indexedFields area i).run = some (.ok (fieldList (area.drop i))) := by
  fun_induction indexedFields area i with
  | case1 i hi ihskip ihfield =>
      have hbyte : area[i]? = some area[i] := List.getElem?_eq_getElem hi
      have hdrop : area.drop i = area[i] :: area.drop (i + 1) := List.drop_eq_getElem_cons hi
      rw [byteAt_eq hbyte, pure_bind, hdrop]
      by_cases hend : area[i] = endOfFields
      · rw [if_pos hend, hend, fieldList_end]
        rfl
      by_cases hzero : area[i] = 0
      · rw [if_neg hend, if_pos hzero, ihskip, hzero, fieldList_zero]
      rw [if_neg hend, if_neg hzero]
      by_cases hstop : area.length < i + 1 + (area[i] % 64).toNat
      · have hstops : Stops (area[i] :: area.drop (i + 1)) :=
          .overrun hzero hend (by rw [List.length_drop]; omega)
        simp only [if_pos hstop, fieldList_of_stops hstops]
        rfl
      · have hfits : (area[i] % 64).toNat ≤ (area.drop (i + 1)).length := by
          rw [List.length_drop]
          omega
        have hdata : (area.take (i + 1 + (area[i] % 64).toNat)).drop (i + 1) =
            (area.drop (i + 1)).take (area[i] % 64).toNat := by
          rw [List.drop_take, Nat.add_sub_cancel_left]
        simp only [if_neg hstop, part_eq (Nat.le_add_right _ _) (Nat.le_of_not_lt hstop),
          pure_bind, ExceptT.run_bind, ihfield, hdata, fieldList_fits hzero hend hfits,
          List.drop_drop]
        rfl
  | case2 i hi =>
      rw [List.drop_eq_nil_of_le (Nat.le_of_not_lt hi), fieldList]
      rfl

/-- The common parts of an area stand within it. -/
theorem Area.run_indexed {kind : AreaKind} {area : List UInt8}
    (h : kind.fieldsStart < area.length) :
    (Area.indexed kind area).run = some (.ok (Area.ofSpan kind area h)) := by
  have htwo := kind.two_lt_fieldsStart
  have hne : area ≠ [] := List.ne_nil_of_length_pos (by omega)
  have h0 : area[0]? = some area[0] := List.getElem?_eq_getElem (by omega)
  have h1 : area[1]? = some area[1] := List.getElem?_eq_getElem (by omega)
  rw [Area.indexed, List.getLast?_eq_some_getLast hne, byteAt_eq h0, byteAt_eq h1, Area.ofSpan,
    ← List.getLast_eq_getElem hne]
  simp only [pure_bind, ExceptT.run_bind, run_indexedFields]
  rfl

/-- What is read from an area that was cut out stays in range when it does so for every
area that is longer than its fixed bytes. -/
theorem run_indexedSpan_bind {α : Type} {kind : AreaKind} {f : List UInt8 → Indexed Fault α}
    {g : kind.Span → α} (h : ∀ span : kind.Span, (f span.val).run = some (.ok (g span)))
    (buf : List UInt8) : (kind.indexedSpan buf >>= f).run = some ((kind.span buf).map g) := by
  rw [ExceptT.run_bind, kind.run_indexedSpan]
  cases kind.span buf with
  | error fault => rfl
  | ok span => exact h span

theorem ChassisArea.run_indexed (buf : List UInt8) :
    (ChassisArea.indexed buf).run = some (ChassisArea.decode buf) := by
  rw [decode_eq, indexed]
  refine run_indexedSpan_bind (fun span => ?_) buf
  have hlength : 3 < span.val.length := span.property
  have h2 : span.val[2]? = some span.val[2] := List.getElem?_eq_getElem (by omega)
  rw [ExceptT.run_bind, Area.run_indexed span.property, byteAt_eq h2]
  rfl

/-- The fixed bytes of a board area reach up to its sixth byte, and a cut area is longer. -/
theorem BoardArea.run_indexed (buf : List UInt8) :
    (BoardArea.indexed buf).run = some (BoardArea.decode buf) := by
  rw [decode_eq, indexed]
  refine run_indexedSpan_bind (fun span => ?_) buf
  have hlength : 6 < span.val.length := span.property
  have h2 : span.val[2]? = some span.val[2] := List.getElem?_eq_getElem (by omega)
  have h3 : span.val[3]? = some span.val[3] := List.getElem?_eq_getElem (by omega)
  have h4 : span.val[4]? = some span.val[4] := List.getElem?_eq_getElem (by omega)
  have h5 : span.val[5]? = some span.val[5] := List.getElem?_eq_getElem (by omega)
  rw [ExceptT.run_bind, Area.run_indexed span.property, byteAt_eq h2, byteAt_eq h3,
    byteAt_eq h4, byteAt_eq h5]
  rfl

theorem ProductArea.run_indexed (buf : List UInt8) :
    (ProductArea.indexed buf).run = some (ProductArea.decode buf) := by
  rw [decode_eq, indexed]
  refine run_indexedSpan_bind (fun span => ?_) buf
  have hlength : 3 < span.val.length := span.property
  have h2 : span.val[2]? = some span.val[2] := List.getElem?_eq_getElem (by omega)
  rw [ExceptT.run_bind, Area.run_indexed span.property, byteAt_eq h2]
  rfl

/-- Looking for an area stays in range when its decoder does. -/
theorem run_indexedAreaAt {α : Type} {kind : AreaKind} {read : List UInt8 → Indexed Fault α}
    {decode : List UInt8 → Except Fault α} (h : ∀ buf, (read buf).run = some (decode buf))
    (data : List UInt8) (offset : UInt8) :
    (indexedAreaAt kind read data offset).run = some (areaAt kind decode data offset) := by
  by_cases hoffset : offset = 0
  · subst hoffset
    rfl
  by_cases hstart : data.length ≤ 8 * offset.toNat
  · rw [indexedAreaAt, if_neg hoffset, if_pos hstart, areaAt_beyond hoffset hstart]
    rfl
  · have hwithin : 8 * offset.toNat < data.length := Nat.lt_of_not_le hstart
    rw [indexedAreaAt, if_neg hoffset, if_neg hstart, areaAt_within hoffset hwithin,
      part_back (Nat.le_of_lt hwithin), pure_bind, ExceptT.run_bind, h]
    cases decode (data.drop (8 * offset.toNat)) <;> rfl

/-- Decoding an inventory never asks for a byte that the buffer does not have. -/
theorem Inventory.run_indexed (data : List UInt8) :
    (Inventory.indexed data).run = some (Inventory.decode data) :=
  run_bind (Header.run_indexed data) fun header =>
    run_bind (run_indexedAreaAt ChassisArea.run_indexed data header.chassis) fun _ =>
      run_bind (run_indexedAreaAt BoardArea.run_indexed data header.board) fun _ =>
        run_bind (run_indexedAreaAt ProductArea.run_indexed data header.product) fun _ => rfl

end Baseboard.Fru
