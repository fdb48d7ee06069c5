import Baseboard.Bytes
import Baseboard.Fru.Fault
import Baseboard.Text.Blank
import Baseboard.Text.Utf8

/-!
# Baseboard.Fru.Field

The variable-length fields of an inventory area:

```
field  =  type/length byte ++ data        type in the high two bits
list   =  field ++ … ++ 0xC1
```

A zero byte between two fields is skipped.  A list ends at `0xC1`, at the end of
its bytes, or before a field whose data would run past them.

`Field.encode` writes a field and `fieldList` reads a list.  The values of
fields are read in a language: text in a language other than English, and the
two packed encodings, are kept as bytes.
-/

namespace Baseboard.Fru

/-- How the data of a field stands for its value. -/
inductive Encoding where
  | binary
  | bcdPlus
  | sixBitAscii
  | ascii8
  deriving DecidableEq, Repr

namespace Encoding

/-- The two-bit number of an encoding. -/
def code : Encoding → UInt8
  | binary => 0
  | bcdPlus => 1
  | sixBitAscii => 2
  | ascii8 => 3

/-- The encoding in the high two bits of a type/length byte. -/
def ofTypeLength (b : UInt8) : Encoding :=
  match b / 64 with
  | 0 => binary
  | 1 => bcdPlus
  | 2 => sixBitAscii
  | _ => ascii8

/-- The name of an encoding in reports. -/
def name : Encoding → String
  | binary => "Binary"
  | bcdPlus => "BcdPlus"
  | sixBitAscii => "SixBitAscii"
  | ascii8 => "Ascii8"

end Encoding

/-! ## Values -/

/-- The value of a field. -/
inductive Value where
  /-- Text without blanks around it. -/
  | text (content : String)
  | binary (raw : List UInt8)
  /-- An encoding that is not read further. -/
  | unsupported (encoding : Encoding) (raw : List UInt8)
  deriving DecidableEq, Repr

namespace Value

/-- The text of a value that is text. -/
def text? : Value → Option String
  | text content => some content
  | _ => none

/-- A value as reports show it. -/
def display : Value → String
  | text content => content
  | binary raw => "0x" ++ hex raw
  | unsupported encoding raw => s!"Type: {encoding.name}, Hex: {hex raw}"

end Value

/-- Whether a language code stands for English. -/
def isEnglish (language : UInt8) : Bool := language = 0 || language = 25

/-! ## Fields -/

/-- A field as it stands in an area. -/
structure Field where
  encoding : Encoding
  data : List UInt8
  deriving DecidableEq, Repr

namespace Field

/-- The most bytes that a type/length byte describes. -/
def maxLength : Nat := 63

/-- The type/length byte and the data, cut to what that byte can describe. -/
def encode (f : Field) : List UInt8 :=
  (64 * f.encoding.code + UInt8.ofNat (min f.data.length maxLength)) :: f.data.take maxLength

/-- The field that holds a text. -/
def ofText (text : String) : Except Fault Field :=
  let data := Utf8.encode text.toList
  if maxLength < data.length then .error (.fieldTooLong data.length)
  else .ok ⟨.ascii8, data⟩

/-- The value of a field in a language. -/
def value (language : UInt8) (f : Field) : Value :=
  match f.encoding with
  | .binary => .binary f.data
  | .ascii8 =>
    if isEnglish language then .text (String.ofList (trim (Utf8.decode f.data)))
    else .unsupported .ascii8 f.data
  | packed => .unsupported packed f.data

end Field

/-- The byte that ends a list of fields. -/
def endOfFields : UInt8 := 0xC1

/-- The fields at the front of some bytes, up to the end of the list. -/
def fieldList : List UInt8 → List Field
  | [] => []
  | b :: rest =>
    if b = endOfFields then []
    else if b = 0 then fieldList rest
    else
      let length := (b % 64).toNat
      if length ≤ rest.length then
        ⟨.ofTypeLength b, rest.take length⟩ :: fieldList (rest.drop length)
      else []
termination_by bytes => bytes.length
decreasing_by
  · exact Nat.lt_succ_self _
  · rw [List.length_drop, List.length_cons]
    omega

end Baseboard.Fru
