import Baseboard.Fru.Field
import Baseboard.Text.Column

/-!
# Baseboard.Fru.Area.Basic

What the areas of an inventory have in common that describe a chassis, a board
and a product:

```
area  =  version ++ length ++ fixed bytes ++ fields ++ padding ++ checksum
```

The length counts units of eight bytes.  An area is cut out of the bytes from
its start on (`AreaKind.span`), and nothing behind its declared length is looked
at afterwards.  Its checksum is kept and compared, but a wrong one does not
refuse the area.

The first fields of an area have names; the rest are the maker's own.  Reports
list all of them in order.
-/

namespace Baseboard.Fru

/-! ## The extent of an area -/

/-- The areas that are decoded. -/
inductive AreaKind where
  | chassis
  | board
  | product
  deriving DecidableEq, Repr

namespace AreaKind

/-- The name of an area in messages. -/
def name : AreaKind → String
  | chassis => "Chassis Info"
  | board => "Board Info"
  | product => "Product Info"

/-- Where the fields start, behind the fixed bytes. -/
def fieldsStart : AreaKind → Nat
  | chassis => 3
  | board => 6
  | product => 3

/-- The names of the first fields. -/
def slots : AreaKind → List String
  | chassis => ["Chassis Part Number", "Chassis Serial"]
  | board =>
    ["Board Mfg", "Board Product", "Board Serial", "Board Part Number", "Board FRU File ID"]
  | product =>
    ["Product Manufacturer", "Product Name", "Product Part Number", "Product Version",
      "Product Serial", "Product Asset Tag", "Product FRU File ID"]

theorem two_lt_fieldsStart (kind : AreaKind) : 2 < kind.fieldsStart := by
  cases kind <;> decide

theorem fieldsStart_lt_length_take {kind : AreaKind} {buf : List UInt8} {size : Nat}
    (fits : ¬buf.length < size) (room : ¬size ≤ kind.fieldsStart) :
    kind.fieldsStart < (buf.take size).length := by
  rw [List.length_take]
  omega

/-- The bytes of the area that starts `buf`.  Its version is 1, it lies within
`buf`, and at least one byte follows its fixed bytes. -/
def span (kind : AreaKind) (buf : List UInt8) :
    Except Fault { bytes : List UInt8 // kind.fieldsStart < bytes.length } :=
  match buf with
  | version :: length :: _ =>
    let size := 8 * length.toNat
    if fits : buf.length < size then .error (.areaLength kind.name size buf.length)
    else if version % 16 ≠ 1 then .error (.areaVersion kind.name (version % 16))
    else if room : size ≤ kind.fieldsStart then .error (.noFields kind.name size kind.fieldsStart)
    else .ok ⟨buf.take size, fieldsStart_lt_length_take fits room⟩
  | short => .error (.areaTooShort kind.name 2 short.length)

end AreaKind

/-! ## What the areas have in common -/

/-- The parts that every area has. -/
structure Area where
  version : UInt8
  /-- The length in units of eight bytes. -/
  length : UInt8
  fields : List Field
  /-- The last byte of the area. -/
  checksum : UInt8
  /-- The checksum of the bytes before it. -/
  computed : UInt8
  deriving DecidableEq, Repr

namespace Area

/-- The common parts of an area of some kind, from its bytes. -/
def ofSpan (kind : AreaKind) (bytes : List UInt8) (h : kind.fieldsStart < bytes.length) :
    Area :=
  have := kind.two_lt_fieldsStart
  { version := bytes[0] % 16
    length := bytes[1]
    fields := fieldList (bytes.drop kind.fieldsStart)
    checksum := bytes[bytes.length - 1]
    computed := Baseboard.checksum bytes.dropLast }

/-- Whether the last byte is the checksum of the others. -/
def checksumValid (a : Area) : Bool := a.checksum = a.computed

/-- The value of the field at an index, in a language. -/
def value? (language : UInt8) (a : Area) (index : Nat) : Option Value :=
  a.fields[index]?.map (·.value language)

/-- The values of the fields behind the first `named`, in a language. -/
def custom (named : Nat) (language : UInt8) (a : Area) : List Value :=
  (a.fields.drop named).map (·.value language)

/-- The label of the field at an index: its name, or its number among the fields
without a name, counted from 1. -/
def label (kind : AreaKind) (index : Nat) : String :=
  kind.slots[index]?.getD s!"Custom Field #{index - kind.slots.length + 1}"

/-- The labels and values of the fields, in order. -/
def entries (kind : AreaKind) (language : UInt8) (a : Area) : List (String × Value) :=
  a.fields.zipIdx.map fun (field, index) => (label kind index, field.value language)

end Area

/-- A line of a report: a label of 22 columns and a text. -/
def reportLine (label text : String) : String := "  " ++ column 22 label ++ ": " ++ text ++ "\n"

/-- The report lines of the fields of an area. -/
def Area.report (kind : AreaKind) (language : UInt8) (a : Area) : String :=
  String.join ((a.entries kind language).map fun entry => reportLine entry.1 entry.2.display)

end Baseboard.Fru
