import Baseboard.Proofs.Fru.FieldList
import Baseboard.Proofs.Fru.Span

/-!
# Baseboard.Proofs.Fru.Layout

Inventories laid out from descriptions of their areas, and read back.

```
image  =  header, each area at its offset, any bytes in between and behind
area   =  1 ++ length ++ fixed bytes ++ fields ++ 0xC1 ++ padding ++ checksum
```

A draft describes one area, a `Layout` describes the areas of an inventory and
where the header places them.  `Layout.Describes` says that an image holds the
bytes of a layout; it asks nothing of the other bytes.

Main statement: an image decodes to what its layout says (`Layout.decode_image`).
-/

namespace Baseboard.Fru

/-! ## The bytes of an area -/

/-- What an area of some kind holds apart from its fixed bytes.  The length of
the area leaves room for all of it. -/
structure Contents (kind : AreaKind) where
  /-- The length in units of eight bytes. -/
  units : UInt8
  fields : List Field
  /-- The bytes between the end of the fields and the checksum. -/
  padding : List UInt8
  writable : ∀ f ∈ fields, f.Writable
  length_eq :
    kind.fieldsStart + (fields.flatMap Field.encode).length + padding.length + 2 =
      8 * units.toNat

namespace Contents

variable {kind : AreaKind} {fixed : List UInt8}

/-- An area up to its checksum. -/
def front (c : Contents kind) (fixed : List UInt8) : List UInt8 :=
  1 :: c.units :: (fixed ++ (c.fields.flatMap Field.encode ++ endOfFields :: c.padding))

/-- An area with its checksum. -/
def bytes (c : Contents kind) (fixed : List UInt8) : List UInt8 :=
  c.front fixed ++ [checksum (c.front fixed)]

/-- What every decoder says about an area. -/
def area (c : Contents kind) (fixed : List UInt8) : Area where
  version := 1
  length := c.units
  fields := c.fields
  checksum := checksum (c.front fixed)
  computed := checksum (c.front fixed)

theorem checksumValid_area (c : Contents kind) (fixed : List UInt8) :
    (c.area fixed).checksumValid = true :=
  decide_eq_true rfl

theorem bytes_ne_nil (c : Contents kind) (fixed : List UInt8) : c.bytes fixed ≠ [] :=
  List.append_ne_nil_of_right_ne_nil _ (List.cons_ne_nil _ _)

/-- An area has the length that it declares. -/
theorem length_bytes (c : Contents kind) (hfixed : fixed.length + 2 = kind.fieldsStart) :
    (c.bytes fixed).length = 8 * c.units.toNat := by
  have hlength := c.length_eq
  simp only [bytes, front, List.length_append, List.length_cons, List.length_nil]
  omega

theorem fieldsStart_lt_length (c : Contents kind) (hfixed : fixed.length + 2 = kind.fieldsStart) :
    kind.fieldsStart < (c.bytes fixed).length := by
  have hlength := c.length_eq
  rw [c.length_bytes hfixed]
  omega

/-- The fields of an area stand behind its fixed bytes. -/
theorem drop_bytes (c : Contents kind) (hfixed : fixed.length + 2 = kind.fieldsStart) :
    (c.bytes fixed).drop kind.fieldsStart =
      c.fields.flatMap Field.encode ++
        endOfFields :: (c.padding ++ [checksum (c.front fixed)]) := by
  have hbytes : c.bytes fixed = (1 :: c.units :: fixed) ++ (c.fields.flatMap Field.encode ++
      endOfFields :: (c.padding ++ [checksum (c.front fixed)])) := by
    simp [bytes, front]
  rw [hbytes, ← hfixed]
  exact List.drop_left

/-- An area is cut out of the bytes that it starts. -/
theorem span_bytes_append (c : Contents kind) (hfixed : fixed.length + 2 = kind.fieldsStart)
    (rest : List UInt8) :
    kind.span (c.bytes fixed ++ rest) =
      .ok ⟨c.bytes fixed, c.fieldsStart_lt_length hfixed⟩ := by
  have hlength := c.length_bytes hfixed
  have hroom := c.fieldsStart_lt_length hfixed
  have hfits : 8 * c.units.toNat ≤ (c.bytes fixed ++ rest).length := by
    rw [List.length_append]
    omega
  have htake : (c.bytes fixed ++ rest).take (8 * c.units.toNat) = c.bytes fixed := by
    rw [← hlength, List.take_left]
  exact AreaKind.span_eq_ok hfits rfl (by omega) htake hroom

/-- What every decoder says about an area is what it was written from. -/
theorem ofSpan_bytes (c : Contents kind) (hfixed : fixed.length + 2 = kind.fieldsStart)
    (h : kind.fieldsStart < (c.bytes fixed).length) :
    Area.ofSpan kind (c.bytes fixed) h = c.area fixed := by
  have hfields : fieldList ((c.bytes fixed).drop kind.fieldsStart) = c.fields := by
    rw [c.drop_bytes hfixed, fieldList_written c.writable]
  have hlast : (c.bytes fixed)[(c.bytes fixed).length - 1] = checksum (c.front fixed) := by
    rw [← List.getLast_eq_getElem]
    exact List.getLast_concat
  have hdropLast : (c.bytes fixed).dropLast = c.front fixed := List.dropLast_concat
  rw [Area.ofSpan, area, Area.mk.injEq]
  exact ⟨rfl, rfl, hfields, hlast, congrArg _ hdropLast⟩

end Contents

/-! ## Drafts of the areas -/

/-- A chassis area to be written. -/
structure ChassisDraft extends Contents .chassis where
  chassisType : UInt8

/-- A board area to be written.  The date counts minutes, low byte first. -/
structure BoardDraft extends Contents .board where
  language : UInt8
  date0 : UInt8
  date1 : UInt8
  date2 : UInt8

/-- A product area to be written. -/
structure ProductDraft extends Contents .product where
  language : UInt8

namespace ChassisDraft

def bytes (d : ChassisDraft) : List UInt8 := d.toContents.bytes [d.chassisType]

/-- What the draft says about the chassis. -/
def area (d : ChassisDraft) : ChassisArea :=
  { d.toContents.area [d.chassisType] with chassisType := d.chassisType }

theorem bytes_ne_nil (d : ChassisDraft) : d.bytes ≠ [] := d.toContents.bytes_ne_nil _

theorem decode_bytes_append (d : ChassisDraft) (rest : List UInt8) :
    ChassisArea.decode (d.bytes ++ rest) = .ok d.area := by
  rw [ChassisArea.decode, bytes, d.span_bytes_append rfl rest]
  simp only [bind, Except.bind]
  rw [d.ofSpan_bytes rfl]
  rfl

end ChassisDraft

namespace BoardDraft

def bytes (d : BoardDraft) : List UInt8 :=
  d.toContents.bytes [d.language, d.date0, d.date1, d.date2]

/-- What the draft says about the board. -/
def area (d : BoardDraft) : BoardArea :=
  { d.toContents.area [d.language, d.date0, d.date1, d.date2] with
    language := d.language
    manufactured :=
      boardEpoch + 60 * (d.date0.toNat + 256 * d.date1.toNat + 65536 * d.date2.toNat) }

theorem bytes_ne_nil (d : BoardDraft) : d.bytes ≠ [] := d.toContents.bytes_ne_nil _

theorem decode_bytes_append (d : BoardDraft) (rest : List UInt8) :
    BoardArea.decode (d.bytes ++ rest) = .ok d.area := by
  rw [BoardArea.decode, bytes, d.span_bytes_append rfl rest]
  simp only [bind, Except.bind]
  rw [d.ofSpan_bytes rfl, area, ← toNat_le24]
  rfl

/-- A date of no minutes is the start of 1996. -/
example : DateTime.ofUnix (manufactureTime 0 0 0) = ⟨1996, 1, 1, 0, 0, 0⟩ := by cbv

end BoardDraft

namespace ProductDraft

def bytes (d : ProductDraft) : List UInt8 := d.toContents.bytes [d.language]

/-- What the draft says about the product. -/
def area (d : ProductDraft) : ProductArea :=
  { d.toContents.area [d.language] with language := d.language }

theorem bytes_ne_nil (d : ProductDraft) : d.bytes ≠ [] := d.toContents.bytes_ne_nil _

theorem decode_bytes_append (d : ProductDraft) (rest : List UInt8) :
    ProductArea.decode (d.bytes ++ rest) = .ok d.area := by
  rw [ProductArea.decode, bytes, d.span_bytes_append rfl rest]
  simp only [bind, Except.bind]
  rw [d.ofSpan_bytes rfl]
  rfl

end ProductDraft

/-! ## Layouts -/

/-- A draft and where its area starts, in units of eight bytes. -/
structure Placed (δ : Type) where
  offset : UInt8
  draft : δ
  offset_ne_zero : offset ≠ 0

namespace Placed

variable {δ α : Type}

/-- The offset by which a header names an area that may be absent. -/
def offsetOf : Option (Placed δ) → UInt8
  | none => 0
  | some p => p.offset

/-- Whether the area of a placed draft, if there is one, stands in an image. -/
def StandsIn (bytes : δ → List UInt8) (slot : Option (Placed δ)) (image : List UInt8) : Prop :=
  ∀ p ∈ slot, bytes p.draft <+: image.drop (8 * p.offset.toNat)

/-- An area that stands in an image is decoded, an absent one is not looked for. -/
theorem areaAt_offsetOf {kind : AreaKind} {decode : List UInt8 → Except Fault α}
    {bytes : δ → List UInt8} {area : δ → α} {slot : Option (Placed δ)} {image : List UInt8}
    (hne : ∀ d, bytes d ≠ [])
    (hdecode : ∀ d rest, decode (bytes d ++ rest) = .ok (area d))
    (h : StandsIn bytes slot image) :
    areaAt kind decode image (offsetOf slot) = .ok (slot.map fun p => area p.draft) := by
  cases slot with
  | none => rfl
  | some p =>
      obtain ⟨rest, hrest⟩ := h p rfl
      have hstart : ¬image.length ≤ 8 * p.offset.toNat := by
        intro hpast
        rw [List.drop_eq_nil_of_le hpast] at hrest
        exact hne p.draft (List.append_eq_nil_iff.mp hrest).1
      have hbytes : areaBytes kind image p.offset = .ok (some (bytes p.draft ++ rest)) := by
        rw [areaBytes, if_neg p.offset_ne_zero, if_neg hstart, hrest]
      simp only [areaAt, offsetOf, hbytes, bind, Except.bind, hdecode]
      rfl

/-- What holds of the area of every draft holds of the area that is placed. -/
theorem forall_mem_map_area {area : δ → α} {P : α → Prop} (h : ∀ d, P (area d))
    (slot : Option (Placed δ)) : ∀ a ∈ slot.map fun p => area p.draft, P a := by
  intro a ha
  obtain ⟨p, -, rfl⟩ := Option.map_eq_some_iff.mp ha
  exact h p.draft

end Placed

/-- The areas of an inventory and what else its header says. -/
structure Layout where
  internalUse : UInt8
  chassis : Option (Placed ChassisDraft)
  board : Option (Placed BoardDraft)
  product : Option (Placed ProductDraft)
  multiRecord : UInt8
  pad : UInt8

namespace Layout

/-- The header up to its checksum. -/
def headerFront (l : Layout) : List UInt8 :=
  [1, l.internalUse, Placed.offsetOf l.chassis, Placed.offsetOf l.board,
    Placed.offsetOf l.product, l.multiRecord, l.pad]

def header (l : Layout) : Header where
  version := 1
  internalUse := l.internalUse
  chassis := Placed.offsetOf l.chassis
  board := Placed.offsetOf l.board
  product := Placed.offsetOf l.product
  multiRecord := l.multiRecord
  pad := l.pad
  checksum := checksum l.headerFront

/-- Whether an image starts with the header of a layout and holds its areas where
the header says.  All other bytes are free. -/
structure Describes (l : Layout) (image : List UInt8) : Prop where
  header : l.headerFront ++ [checksum l.headerFront] <+: image
  chassis : Placed.StandsIn ChassisDraft.bytes l.chassis image
  board : Placed.StandsIn BoardDraft.bytes l.board image
  product : Placed.StandsIn ProductDraft.bytes l.product image

/-- What a layout says, as an inventory. -/
def inventory (l : Layout) : Inventory where
  header := l.header
  chassis := l.chassis.map fun p => p.draft.area
  board := l.board.map fun p => p.draft.area
  product := l.product.map fun p => p.draft.area

theorem decode_header {l : Layout} {image : List UInt8} (h : l.Describes image) :
    Header.decode image = .ok l.header := by
  obtain ⟨rest, hrest⟩ := h.header
  rw [← hrest]
  simp only [headerFront, List.cons_append, List.nil_append, Header.decode]
  rw [if_neg (by decide), if_neg (not_not_intro rfl)]
  rfl

/-- An image decodes to what its layout says, area by area, and every checksum in
it is right. -/
theorem decode_image {l : Layout} {image : List UInt8} (h : l.Describes image) :
    Inventory.decode image = .ok l.inventory ∧
      (∀ a ∈ l.inventory.chassis, a.checksumValid = true) ∧
      (∀ a ∈ l.inventory.board, a.checksumValid = true) ∧
      (∀ a ∈ l.inventory.product, a.checksumValid = true) := by
  have hchassis : areaAt .chassis ChassisArea.decode image l.header.chassis =
      .ok l.inventory.chassis :=
    Placed.areaAt_offsetOf ChassisDraft.bytes_ne_nil ChassisDraft.decode_bytes_append h.chassis
  have hboard : areaAt .board BoardArea.decode image l.header.board = .ok l.inventory.board :=
    Placed.areaAt_offsetOf BoardDraft.bytes_ne_nil BoardDraft.decode_bytes_append h.board
  have hproduct : areaAt .product ProductArea.decode image l.header.product =
      .ok l.inventory.product :=
    Placed.areaAt_offsetOf ProductDraft.bytes_ne_nil ProductDraft.decode_bytes_append h.product
  refine ⟨?_, ?_, ?_, ?_⟩
  · simp only [Inventory.decode, decode_header h, hchassis, hboard, hproduct, bind, Except.bind]
    rfl
  · exact Placed.forall_mem_map_area (fun d => d.checksumValid_area _) l.chassis
  · exact Placed.forall_mem_map_area (fun d => d.checksumValid_area _) l.board
  · exact Placed.forall_mem_map_area (fun d => d.checksumValid_area _) l.product

/-- A board made in 1996 and its product, one after the other, without a chassis. -/
def boardAndProduct : Layout where
  internalUse := 0
  chassis := none
  board := some
    { offset := 1
      draft :=
        { units := 2, fields := [⟨.ascii8, [0x41, 0x63, 0x6D, 0x65]⟩], padding := [0, 0, 0],
          language := 25, date0 := 0x10, date1 := 0x27, date2 := 0
          writable := by decide
          length_eq := by decide }
      offset_ne_zero := by decide }
  product := some
    { offset := 3
      draft :=
        { units := 1, fields := [⟨.ascii8, [0x58, 0x31]⟩], padding := [], language := 25
          writable := by decide
          length_eq := by decide }
      offset_ne_zero := by decide }
  multiRecord := 0
  pad := 0

/-- An image of this layout, with a byte behind it. -/
def boardAndProductImage : List UInt8 :=
  [0x01, 0x00, 0x00, 0x01, 0x03, 0x00, 0x00, 0xFB,
    0x01, 0x02, 0x19, 0x10, 0x27, 0x00, 0xC4, 0x41, 0x63, 0x6D, 0x65, 0xC1, 0x00, 0x00, 0x00, 0xB2,
    0x01, 0x01, 0x19, 0xC2, 0x58, 0x31, 0xC1, 0xD9, 0xAA]

theorem describes_boardAndProduct : boardAndProduct.Describes boardAndProductImage where
  header := by decide
  chassis := nofun
  board := by
    rintro _ ⟨⟩
    decide
  product := by
    rintro _ ⟨⟩
    decide

theorem decode_boardAndProduct :
    boardAndProduct.Describes boardAndProductImage ∧
      Inventory.decode boardAndProductImage = .ok boardAndProduct.inventory :=
  ⟨describes_boardAndProduct, (decode_image describes_boardAndProduct).1⟩

end Layout

end Baseboard.Fru
