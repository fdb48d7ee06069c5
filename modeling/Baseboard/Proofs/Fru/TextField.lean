import Baseboard.Proofs.Fru.FieldList
import Baseboard.Proofs.Fru.Span
import Baseboard.Proofs.Text.Utf8

/-!
# Baseboard.Proofs.Fru.TextField

A text that is written into a product area and read back.  Whatever it is, it becomes a
field if it has at most 63 bytes (`Field.ofText_eq_ok_iff`), and the value of this field is
the text without the blanks around it (`Field.value_of_ofText`).

Not every such field can stand in a list.  The type/length byte of a text counts its bytes
below two set bits; with a single byte it is `0xC1`, which ends the list.  A text of one byte
is taken for this end, and with it goes every field behind it.

Main statement: a text of any other length comes back from among other texts, and these with
it (`Surroundings.decode_withText`).
-/

namespace Baseboard.Fru

namespace Field

/-! ## Texts as fields -/

/-- A text becomes a field when its bytes are few enough for a type/length byte to count. -/
theorem ofText_eq_ok_iff {text : String} {f : Field} :
    ofText text = .ok f ↔
      text.toUTF8.data.toList.length ≤ maxLength ∧
        f = ⟨.ascii8, text.toUTF8.data.toList⟩ := by
  unfold ofText
  rw [Utf8.encode_toList]
  by_cases hlength : text.toUTF8.data.toList.length ≤ maxLength
  · simp only [if_neg (Nat.not_lt.mpr hlength), Except.ok.injEq, hlength, true_and, eq_comm]
  · simp only [if_pos (Nat.lt_of_not_le hlength), hlength, false_and, reduceCtorEq]

/-- The value of a text in English is the text without the blanks around it. -/
theorem value_of_ofText {language : UInt8} {text : String} {f : Field}
    (h : ofText text = .ok f) (henglish : isEnglish language = true) :
    f.value language = .text (String.ofList (trim text.toList)) := by
  obtain ⟨-, rfl⟩ := ofText_eq_ok_iff.mp h
  simp only [value, if_pos henglish, ← Utf8.encode_toList, Utf8.decode_encode]

/-- A text of one byte writes the end of a list. -/
theorem encode_of_single {f : Field} (hascii : f.encoding = .ascii8) (hone : f.data.length = 1) :
    f.encode = endOfFields :: f.data := by
  have hcut : f.cut = f := cut_eq_self (by rw [hone]; decide)
  have hbyte : f.typeLength = endOfFields := by rw [typeLength, hascii, hone]; rfl
  rw [encode_eq, hcut, hbyte]

/-- Whether a field is a text of a length that a list gives back. -/
structure IsText (f : Field) : Prop where
  encoding_eq : f.encoding = .ascii8
  two_le : 2 ≤ f.data.length
  length_le : f.data.length ≤ maxLength

instance (f : Field) : Decidable f.IsText :=
  decidable_of_iff (f.encoding = .ascii8 ∧ 2 ≤ f.data.length ∧ f.data.length ≤ maxLength)
    ⟨fun h => ⟨h.1, h.2.1, h.2.2⟩, fun h => ⟨h.encoding_eq, h.two_le, h.length_le⟩⟩

theorem writable_of_ascii8 {f : Field} (hascii : f.encoding = .ascii8) (hone : f.data.length ≠ 1)
    (hlength : f.data.length ≤ maxLength) : f.Writable where
  not_skipped hskipped := by
    rw [hskipped] at hascii
    contradiction
  not_end hend := hone hend.2
  length_le := hlength

theorem IsText.writable {f : Field} (h : f.IsText) : f.Writable :=
  writable_of_ascii8 h.encoding_eq (by have := h.two_le; omega) h.length_le

theorem writable_of_ofText {text : String} {f : Field} (h : ofText text = .ok f)
    (hone : f.data.length ≠ 1) : f.Writable := by
  obtain ⟨hlength, rfl⟩ := ofText_eq_ok_iff.mp h
  exact writable_of_ascii8 rfl hone hlength

end Field

/-! ## Around a field -/

/-- A product area is cut out behind its version, its length and its language. -/
theorem ProductArea.decode_of_length {version units language : UInt8} {list : List UInt8}
    (hversion : version % 16 = 1) (hlength : list.length + 3 = 8 * units.toNat)
    (rest : List UInt8) :
    ∃ a, decode (version :: units :: language :: list ++ rest) = .ok a ∧
      a.language = language ∧ a.fields = fieldList list := by
  have hstart : AreaKind.product.fieldsStart < (version :: units :: language :: list).length := by
    simp only [AreaKind.fieldsStart, List.length_cons]
    omega
  have hdeclared : Declared (version :: units :: language :: list) :=
    ⟨version, units, language :: list, rfl, hversion, hlength⟩
  refine ⟨ProductArea.ofSpan ⟨_, hstart⟩, ?_, rfl, rfl⟩
  rw [decode_eq, AreaKind.span_append hdeclared hstart rest]
  rfl

/-- What stands around a field in a product area in English: texts before it and behind it,
the padding behind the end of the list, and the checksum, be it right or wrong. -/
structure Surroundings where
  version : UInt8
  /-- The length of the area in units of eight bytes. -/
  units : UInt8
  language : UInt8
  before : List Field
  after : List Field
  padding : List UInt8
  checksum : UInt8
  version_eq : version % 16 = 1
  english : isEnglish language = true
  texts_before : ∀ g ∈ before, g.IsText
  texts_after : ∀ g ∈ after, g.IsText

namespace Surroundings

variable (s : Surroundings) {f : Field}

/-- The area from its first field on, with a field in its place. -/
def list (f : Field) : List UInt8 :=
  (s.before ++ f :: s.after).flatMap Field.encode ++ endOfFields :: (s.padding ++ [s.checksum])

/-- The area with a field in its place. -/
def bytes (f : Field) : List UInt8 := s.version :: s.units :: s.language :: s.list f

/-- Whether the area has the length that it declares. -/
def Fits (f : Field) : Prop := (s.bytes f).length = 8 * s.units.toNat

theorem exists_decode (hfits : s.Fits f) (rest : List UInt8) :
    ∃ a, ProductArea.decode (s.bytes f ++ rest) = .ok a ∧
      a.language = s.language ∧ a.fields = fieldList (s.list f) :=
  ProductArea.decode_of_length s.version_eq hfits rest

/-- A field that can be written is read with all others. -/
theorem fieldList_of_writable (hf : f.Writable) :
    fieldList (s.list f) = s.before ++ f :: s.after := by
  apply fieldList_written
  intro g hg
  rcases List.mem_append.mp hg with hbefore | hrest
  · exact (s.texts_before g hbefore).writable
  · rcases List.mem_cons.mp hrest with rfl | hafter
    · exact hf
    · exact (s.texts_after g hafter).writable

/-- A text of one byte ends the list before itself. -/
theorem fieldList_of_single (hascii : f.encoding = .ascii8) (hone : f.data.length = 1) :
    fieldList (s.list f) = s.before := by
  have hbefore : ∀ g ∈ s.before, g.Writable := fun g hg => (s.texts_before g hg).writable
  rw [list, List.flatMap_append, List.flatMap_cons, Field.encode_of_single hascii hone,
    List.append_assoc, List.cons_append, List.cons_append, fieldList_writable_append hbefore,
    fieldList_end, List.append_nil]

/-- A text is written with exactly its bytes, and what a product area says about it is the
text without the blanks around it.  Unless the text has a single byte, the area gives it
back in its place, with the fields before it and behind it; a text of one byte ends the
list, and only the fields before it are left. -/
theorem decode_withText {text : String} (h : Field.ofText text = .ok f) (hfits : s.Fits f)
    (rest : List UInt8) :
    ∃ a, ProductArea.decode (s.bytes f ++ rest) = .ok a ∧ a.language = s.language ∧
      f = ⟨.ascii8, text.toUTF8.data.toList⟩ ∧
      (f.data.length ≠ 1 → a.fields = s.before ++ f :: s.after ∧
        a.value? s.before.length = some (.text (String.ofList (trim text.toList)))) ∧
      (f.data.length = 1 → a.fields = s.before) := by
  obtain ⟨a, hdecode, hlanguage, hfields⟩ := s.exists_decode hfits rest
  have hf : f = ⟨.ascii8, text.toUTF8.data.toList⟩ := (Field.ofText_eq_ok_iff.mp h).2
  refine ⟨a, hdecode, hlanguage, hf, fun hone => ?_, fun hone => ?_⟩
  · have hread := s.fieldList_of_writable (Field.writable_of_ofText h hone)
    have hvalue := Field.value_of_ofText h s.english
    rw [hread] at hfields
    refine ⟨hfields, ?_⟩
    have hplace : (s.before ++ f :: s.after)[s.before.length]? = some f := by
      rw [List.getElem?_append_right (Nat.le_refl _), Nat.sub_self, List.getElem?_cons_zero]
    rw [ProductArea.value?, Area.value?, hfields, hplace, hlanguage, Option.map_some, hvalue]
  · rw [hfields]
    exact s.fieldList_of_single (by rw [hf]) hone

/-- Two texts with a place between them. -/
def twoTexts (padding : List UInt8) (checksum : UInt8) : Surroundings where
  version := 1
  units := 2
  language := 25
  before := [⟨.ascii8, [0x42, 0x43]⟩]
  after := [⟨.ascii8, [0x44, 0x45]⟩]
  padding := padding
  checksum := checksum
  version_eq := rfl
  english := rfl
  texts_before := by decide
  texts_after := by decide

/-- A letter of two bytes comes back, with the blank before it in the field and not in the
value. -/
theorem decode_blankAndLetter :
    Field.ofText " ß" = .ok ⟨.ascii8, [0x20, 0xC3, 0x9F]⟩ ∧
      (twoTexts [0x00] 0x4C).Fits ⟨.ascii8, [0x20, 0xC3, 0x9F]⟩ ∧
      ∃ a, ProductArea.decode [0x01, 0x02, 0x19, 0xC2, 0x42, 0x43, 0xC3, 0x20, 0xC3, 0x9F, 0xC2,
          0x44, 0x45, 0xC1, 0x00, 0x4C] = .ok a ∧
        a.fields = [⟨.ascii8, [0x42, 0x43]⟩, ⟨.ascii8, [0x20, 0xC3, 0x9F]⟩,
          ⟨.ascii8, [0x44, 0x45]⟩] ∧
        a.value? 1 = some (.text "ß") := by
  have hfield : Field.ofText " ß" = .ok ⟨.ascii8, [0x20, 0xC3, 0x9F]⟩ := rfl
  have hfits : (twoTexts [0x00] 0x4C).Fits ⟨.ascii8, [0x20, 0xC3, 0x9F]⟩ := by
    unfold Fits; decide
  obtain ⟨a, hdecode, -, -, hread, -⟩ := (twoTexts [0x00] 0x4C).decode_withText hfield hfits []
  obtain ⟨hfields, hvalue⟩ := hread (by decide)
  exact ⟨hfield, hfits, a, hdecode, hfields, hvalue⟩

/-- A letter of one byte does not, and the text behind it does not either. -/
theorem lost_letter :
    Field.ofText "A" = .ok ⟨.ascii8, [0x41]⟩ ∧
      (twoTexts [0x00, 0x00, 0x00] 0x8F).Fits ⟨.ascii8, [0x41]⟩ ∧
      ∃ a, ProductArea.decode [0x01, 0x02, 0x19, 0xC2, 0x42, 0x43, 0xC1, 0x41, 0xC2, 0x44, 0x45,
          0xC1, 0x00, 0x00, 0x00, 0x8F] = .ok a ∧
        a.fields = [⟨.ascii8, [0x42, 0x43]⟩] ∧ a.value? 1 = none := by
  have hfits : (twoTexts [0x00, 0x00, 0x00] 0x8F).Fits ⟨.ascii8, [0x41]⟩ := by
    unfold Fits; decide
  obtain ⟨a, hdecode, -, hfields⟩ := (twoTexts [0x00, 0x00, 0x00] 0x8F).exists_decode hfits []
  rw [fieldList_of_single _ rfl rfl] at hfields
  refine ⟨rfl, hfits, a, hdecode, hfields, ?_⟩
  rw [ProductArea.value?, Area.value?, hfields]
  rfl

end Surroundings

end Baseboard.Fru
