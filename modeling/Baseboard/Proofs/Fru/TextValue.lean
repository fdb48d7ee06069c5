import Baseboard.Proofs.Fru.TextField
import Baseboard.Proofs.Text.Blank
import Baseboard.Proofs.Text.Repair

/-!
# Baseboard.Proofs.Fru.TextValue

The value of a text field, whatever its bytes are.  They need not be well-formed text, and
they may have white space around them: the value is the repaired text without it
(`Field.value_eq_text_iff`).

Reading is a normalisation.  A text that was read has nothing left to repair and no white
space to lose, so written into a field and read again it stays as it is
(`Field.value_of_ofText_of_bare`).  Main statement: `Field.value_normalised`.
-/

namespace Baseboard.Fru.Field

variable {language : UInt8} {data : List UInt8}

theorem value_ascii8 (data : List UInt8) (henglish : isEnglish language = true) :
    value language ⟨.ascii8, data⟩ = .text (String.ofList (trim (Utf8.decode data))) :=
  if_pos henglish

/-- The value of a text field is what is left of the repaired text without the white space
around it. -/
theorem value_eq_text_iff (henglish : isEnglish language = true) {content : String} :
    value language ⟨.ascii8, data⟩ = .text content ↔
      ∃ whole, Utf8.Repairs data whole ∧ Strips whole content.toList := by
  simp only [value_ascii8 data henglish, Value.text.injEq, Utf8.repairs_iff, strips_iff,
    exists_eq_left', String.ext_iff, String.toList_ofList]

/-- A text without white space around it becomes a field and is the value of this field. -/
theorem value_of_ofText_of_bare {text : String} (hlength : text.utf8ByteSize ≤ maxLength)
    (hbare : Bare text.toList) (henglish : isEnglish language = true) :
    ∃ f, ofText text = .ok f ∧ f.value language = .text text := by
  have hfield : ofText text = .ok ⟨.ascii8, text.toUTF8.data.toList⟩ :=
    ofText_eq_ok_iff.mpr ⟨hlength, rfl⟩
  refine ⟨_, hfield, ?_⟩
  rw [value_of_ofText hfield henglish, hbare.trim_eq, String.ofList_toList]

/-- A text field in English has one value, whatever its bytes: the text that they are
repaired to, without the white space around it.  If this value is not too long it can be
written, and is read again; and well-formed bytes without white space around them are the
value as they stand. -/
theorem value_normalised (data : List UInt8) (hlanguage : language = 0 ∨ language = 25) :
    ∃ content : String, value language ⟨.ascii8, data⟩ = .text content ∧
      (∀ other : String, other = content ↔
        ∃ whole, Utf8.Repairs data whole ∧ Strips whole other.toList) ∧
      (content.utf8ByteSize ≤ 63 →
        ∃ f, ofText content = .ok f ∧ f.value language = .text content) ∧
      (∀ text : String, data = text.toUTF8.data.toList → Bare text.toList →
        content = text) := by
  have henglish : isEnglish language = true := by rcases hlanguage with rfl | rfl <;> rfl
  have hvalue := value_ascii8 data henglish
  obtain ⟨whole, -, hstrips⟩ := (value_eq_text_iff henglish).mp hvalue
  refine ⟨_, hvalue, fun other => ?_, fun hlength => ?_, fun text hdata hbare => ?_⟩
  · rw [← value_eq_text_iff henglish, hvalue, Value.text.injEq, eq_comm]
  · exact value_of_ofText_of_bare hlength hstrips.bare henglish
  · rw [hdata, ← Utf8.encode_toList, Utf8.decode_encode, hbare.trim_eq, String.ofList_toList]

/-- A sequence that breaks off, a surrogate, and white space around them: what is read is written
and read again. -/
theorem value_brokenText :
    ((25 : UInt8) = 0 ∨ (25 : UInt8) = 25) ∧
      ∃ content, value 25 ⟨.ascii8, [0x20, 0xE2, 0x82, 0x41, 0xED, 0xA0, 0x80, 0xC3, 0x9F, 0xC2,
          0x85]⟩ = .text content ∧
        content = "�A���ß" ∧
        ∃ f, ofText content = .ok f ∧ f.value 25 = .text content := by
  have henglish : (25 : UInt8) = 0 ∨ (25 : UInt8) = 25 := .inr rfl
  obtain ⟨content, hvalue, -, hagain, -⟩ := value_normalised
    [0x20, 0xE2, 0x82, 0x41, 0xED, 0xA0, 0x80, 0xC3, 0x9F, 0xC2, 0x85] henglish
  have hread : value 25 ⟨.ascii8, [0x20, 0xE2, 0x82, 0x41, 0xED, 0xA0, 0x80, 0xC3, 0x9F, 0xC2,
      0x85]⟩ = .text "�A���ß" := by decide +kernel
  obtain rfl : content = "�A���ß" := Value.text.inj (hvalue.symm.trans hread)
  exact ⟨henglish, _, hvalue, rfl, hagain (by decide)⟩

end Baseboard.Fru.Field
