import Baseboard.Text.Utf8

/-!
# Baseboard.Proofs.Text.Utf8

Text that is written as bytes and read back.  A character has one to four bytes; the first
tells how many, and keeps the second in a range that leaves out overlong forms, surrogates
and what lies past the last plane.  No character needs what is left out, so every one is read
back (`decode_encodeChar_append`); and whatever a first byte announces, with the bytes that it
announces behind it, is the sequence of some character (`encodeChar_scalar`).

Main statement: a text comes back from its bytes (`decode_encode`).
-/

namespace Baseboard.Utf8

/-! ## Runs of continuation bytes -/

/-- Whether bytes can stand behind a first byte: the first of them lies between `low` and
`high`, and the others are any continuation bytes. -/
def IsRun (low high : UInt8) : List UInt8 → Prop
  | [] => True
  | b :: bs => (low ≤ b ∧ b ≤ high) ∧ IsRun 0x80 0xBF bs

/-- A run, as long as it may be, is taken whole. -/
theorem continuation_append {low high : UInt8} {run : List UInt8} (h : IsRun low high run)
    (rest : List UInt8) : continuation low high run.length (run ++ rest) = run := by
  induction run generalizing low high with
  | nil => simp [continuation]
  | cons b bs ih => simp [continuation, h.1, ih h.2]

/-! ## First bytes -/

theorem lead?_two {b : UInt8} (h : 0xC2 ≤ b.toNat) (h' : b.toNat < 0xE0) :
    lead? b = some ⟨1, 0x80, 0xBF⟩ := by
  simp only [lead?, UInt8.lt_iff_toNat_lt, UInt8.reduceToNat]
  rw [if_neg (by omega), if_pos h']

theorem lead?_three {b : UInt8} (h : 0xE0 ≤ b.toNat) (h' : b.toNat < 0xF0) :
    lead? b = some ⟨2, if b = 0xE0 then 0xA0 else 0x80, if b = 0xED then 0x9F else 0xBF⟩ := by
  by_cases hlow : b = 0xE0
  · rw [hlow]
    rfl
  by_cases hhigh : b = 0xED
  · rw [hhigh]
    rfl
  simp only [lead?, UInt8.lt_iff_toNat_lt, UInt8.reduceToNat, if_neg hlow, if_neg hhigh]
  rw [if_neg (by omega), if_neg (by omega), if_pos h']

theorem lead?_four {b : UInt8} (h : 0xF0 ≤ b.toNat) (h' : b.toNat < 0xF5) :
    lead? b = some ⟨3, if b = 0xF0 then 0x90 else 0x80, if b = 0xF4 then 0x8F else 0xBF⟩ := by
  by_cases hlow : b = 0xF0
  · rw [hlow]
    rfl
  by_cases hhigh : b = 0xF4
  · rw [hhigh]
    rfl
  have hne : b.toNat ≠ 0xF4 := fun heq => hhigh (UInt8.toNat_inj.mp heq)
  have hE0 : b ≠ 0xE0 := by
    rintro rfl
    exact absurd h (by decide)
  have hED : b ≠ 0xED := by
    rintro rfl
    exact absurd h (by decide)
  simp only [lead?, UInt8.lt_iff_toNat_lt, UInt8.reduceToNat, if_neg hlow, if_neg hhigh,
    if_neg hE0, if_neg hED]
  rw [if_neg (by omega), if_neg (by omega), if_neg (by omega), if_pos (by omega)]

/-- No other byte starts a sequence of several bytes. -/
theorem range_of_lead? {b : UInt8} {lead : Lead} (h : lead? b = some lead) :
    0xC2 ≤ b.toNat ∧ b.toNat < 0xF5 := by
  by_cases hlow : b.toNat < 0xC2
  · rw [lead?, if_pos (UInt8.lt_iff_toNat_lt.mpr hlow)] at h
    contradiction
  by_cases hhigh : b.toNat < 0xF5
  · exact ⟨by omega, hhigh⟩
  · have hne (n : UInt8) (hn : n.toNat < 0xF5) : b ≠ n := by
      rintro rfl
      contradiction
    simp only [lead?, UInt8.lt_iff_toNat_lt, UInt8.reduceToNat, if_neg (hne 0xE0 (by decide)),
      if_neg (hne 0xED (by decide)), if_neg (hne 0xF0 (by decide)),
      if_neg (hne 0xF4 (by decide))] at h
    rw [if_neg (by omega), if_neg (by omega), if_neg (by omega), if_neg (by omega)] at h
    contradiction

/-! ## Sequences -/

/-- A first byte with the continuation bytes that it announces. -/
def Announces (b : UInt8) (run : List UInt8) : Prop :=
  ∃ low high, lead? b = some ⟨run.length, low, high⟩ ∧ IsRun low high run

theorem decode_ascii {b : UInt8} (h : b.toNat < 0x80) (rest : List UInt8) :
    decode (b :: rest) = Char.ofNat b.toNat :: decode rest := by
  have hb : b < 0x80 := UInt8.lt_iff_toNat_lt.mpr h
  rw [decode, if_pos hb]

/-- A byte that starts a longer sequence is no character by itself. -/
theorem not_ascii_of_lead? {b : UInt8} {lead : Lead} (h : lead? b = some lead) : ¬b < 0x80 := by
  have hrange := range_of_lead? h
  simp only [UInt8.lt_iff_toNat_lt, UInt8.reduceToNat]
  omega

/-- A sequence that has all its bytes is read as its character. -/
theorem decode_sequence {b : UInt8} {run : List UInt8} (h : Announces b run)
    (rest : List UInt8) : decode (b :: (run ++ rest)) = scalar b run :: decode rest := by
  obtain ⟨low, high, hlead, hrun⟩ := h
  rw [decode, if_neg (not_ascii_of_lead? hlead), hlead]
  simp [continuation_append hrun rest]

/-! ## Characters -/

/-- A number below 64 as a continuation byte. -/
def continuationByte (n : Nat) : UInt8 := UInt8.ofNat (n % 64 + 0x80)

theorem toNat_continuationByte (n : Nat) : (continuationByte n).toNat = n % 64 + 0x80 := by
  rw [continuationByte, UInt8.toNat_ofNat']
  omega

theorem continuationByte_mem (n : Nat) :
    (0x80 : UInt8) ≤ continuationByte n ∧ continuationByte n ≤ 0xBF := by
  simp only [UInt8.le_iff_toNat_le, toNat_continuationByte, UInt8.reduceToNat]
  omega

/-- A sequence and the character that it is read as. -/
structure Spells (b : UInt8) (run : List UInt8) (c : Char) : Prop where
  announces : Announces b run
  scalar_eq : scalar b run = c

theorem spells_two {n : Nat} (h : 0x80 ≤ n) (h' : n ≤ 0x7FF) :
    Spells (UInt8.ofNat (n / 64 % 32 + 0xC0)) [continuationByte n] (Char.ofNat n) := by
  have hb : (UInt8.ofNat (n / 64 % 32 + 0xC0)).toNat = n / 64 + 0xC0 := by
    rw [UInt8.toNat_ofNat']
    omega
  generalize UInt8.ofNat (n / 64 % 32 + 0xC0) = b at hb
  have hlead : lead? b = some ⟨1, 0x80, 0xBF⟩ := lead?_two (by omega) (by omega)
  refine ⟨⟨_, _, hlead, continuationByte_mem n, trivial⟩, congrArg Char.ofNat ?_⟩
  show 64 * (b.toNat % 32) + (continuationByte n).toNat % 64 = n
  rw [hb, toNat_continuationByte]
  omega

/-- The ranges of the second byte keep out overlong forms and surrogates. -/
theorem spells_three {n : Nat} (h : 0x800 ≤ n) (h' : n ≤ 0xFFFF)
    (hvalid : n < 0xD800 ∨ 0xDFFF < n) :
    Spells (UInt8.ofNat (n / 4096 % 16 + 0xE0)) [continuationByte (n / 64), continuationByte n]
      (Char.ofNat n) := by
  have hb : (UInt8.ofNat (n / 4096 % 16 + 0xE0)).toNat = n / 4096 + 0xE0 := by
    rw [UInt8.toNat_ofNat']
    omega
  generalize UInt8.ofNat (n / 4096 % 16 + 0xE0) = b at hb
  have hlead := lead?_three (b := b) (by omega) (by omega)
  have hsecond : (if b = 0xE0 then 0xA0 else 0x80 : UInt8) ≤ continuationByte (n / 64) ∧
      continuationByte (n / 64) ≤ (if b = 0xED then 0x9F else 0xBF : UInt8) := by
    simp only [UInt8.le_iff_toNat_le, toNat_continuationByte, ← UInt8.toNat_inj, hb,
      apply_ite UInt8.toNat, UInt8.reduceToNat]
    constructor <;> split <;> omega
  refine ⟨⟨_, _, hlead, hsecond, continuationByte_mem n, trivial⟩, congrArg Char.ofNat ?_⟩
  show 64 * (64 * (b.toNat % 16) + (continuationByte (n / 64)).toNat % 64) +
    (continuationByte n).toNat % 64 = n
  rw [hb, toNat_continuationByte, toNat_continuationByte]
  omega

/-- They keep out what lies past the last plane, too. -/
theorem spells_four {n : Nat} (h : 0x10000 ≤ n) (h' : n < 0x110000) :
    Spells (UInt8.ofNat (n / 262144 % 8 + 0xF0))
      [continuationByte (n / 4096), continuationByte (n / 64), continuationByte n]
      (Char.ofNat n) := by
  have hb : (UInt8.ofNat (n / 262144 % 8 + 0xF0)).toNat = n / 262144 + 0xF0 := by
    rw [UInt8.toNat_ofNat']
    omega
  generalize UInt8.ofNat (n / 262144 % 8 + 0xF0) = b at hb
  have hlead := lead?_four (b := b) (by omega) (by omega)
  have hsecond : (if b = 0xF0 then 0x90 else 0x80 : UInt8) ≤ continuationByte (n / 4096) ∧
      continuationByte (n / 4096) ≤ (if b = 0xF4 then 0x8F else 0xBF : UInt8) := by
    simp only [UInt8.le_iff_toNat_le, toNat_continuationByte, ← UInt8.toNat_inj, hb,
      apply_ite UInt8.toNat, UInt8.reduceToNat]
    constructor <;> split <;> omega
  refine ⟨⟨_, _, hlead, hsecond, continuationByte_mem (n / 64), continuationByte_mem n,
      trivial⟩,
    congrArg Char.ofNat ?_⟩
  show 64 * (64 * (64 * (b.toNat % 8) + (continuationByte (n / 4096)).toNat % 64) +
    (continuationByte (n / 64)).toNat % 64) + (continuationByte n).toNat % 64 = n
  rw [hb, toNat_continuationByte, toNat_continuationByte, toNat_continuationByte]
  omega

/-- A character is a byte below 0x80 or a longer sequence. -/
theorem encodeChar_cases (c : Char) :
    (∃ b : UInt8, b.toNat < 0x80 ∧ Char.ofNat b.toNat = c ∧ String.utf8EncodeChar c = [b]) ∨
      ∃ b run, Spells b run c ∧ String.utf8EncodeChar c = b :: run := by
  have hvalid : c.val.toNat < 0xD800 ∨ 0xDFFF < c.val.toNat ∧ c.val.toNat < 0x110000 := c.valid
  have hc : Char.ofNat c.val.toNat = c := Char.ofNat_toNat c
  rw [String.utf8EncodeChar]
  generalize c.val.toNat = n at hvalid hc
  subst hc
  by_cases hone : n ≤ 0x7F
  · have hbyte : (UInt8.ofNat n).toNat = n := by
      rw [UInt8.toNat_ofNat']
      omega
    exact .inl ⟨UInt8.ofNat n, by omega, by rw [hbyte], if_pos hone⟩
  rw [if_neg hone]
  by_cases htwo : n ≤ 0x7FF
  · rw [if_pos htwo]
    exact .inr ⟨_, _, spells_two (by omega) htwo, rfl⟩
  rw [if_neg htwo]
  by_cases hthree : n ≤ 0xFFFF
  · rw [if_pos hthree]
    exact .inr ⟨_, _, spells_three (by omega) hthree (by omega), rfl⟩
  · rw [if_neg hthree]
    exact .inr ⟨_, _, spells_four (by omega) (by omega), rfl⟩

/-- A character is read back from its bytes, and the text goes on behind them. -/
theorem decode_encodeChar_append (c : Char) (rest : List UInt8) :
    decode (String.utf8EncodeChar c ++ rest) = c :: decode rest := by
  rcases encodeChar_cases c with
    ⟨b, hb, rfl, hbytes⟩ | ⟨b, run, ⟨hannounces, rfl⟩, hbytes⟩
  · rw [hbytes]
    exact decode_ascii hb rest
  · rw [hbytes]
    exact decode_sequence hannounces rest

/-! ## Characters from sequences -/

theorem toNat_ofNat_of_valid {n : Nat} (h : n < 0xD800 ∨ 0xDFFF < n ∧ n < 0x110000) :
    (Char.ofNat n).val.toNat = n := by
  have hvalid : n.isValidChar := h
  rw [Char.ofNat, dif_pos hvalid]
  rfl

theorem encodeChar_two {b x : UInt8} (h : 0xC2 ≤ b.toNat) (h' : b.toNat < 0xE0)
    (hx : (0x80 : UInt8) ≤ x ∧ x ≤ 0xBF) :
    String.utf8EncodeChar (scalar b [x]) = [b, x] := by
  have hscalar : scalar b [x] = Char.ofNat (64 * (b.toNat % 32) + x.toNat % 64) := rfl
  simp only [UInt8.le_iff_toNat_le, UInt8.reduceToNat] at hx
  rw [hscalar, String.utf8EncodeChar, toNat_ofNat_of_valid (by omega), if_neg (by omega),
    if_pos (by omega)]
  simp only [List.cons.injEq, and_true, ← UInt8.toNat_inj, UInt8.toNat_ofNat']
  omega

/-- The range of the second byte gives a number that needs three bytes and is no surrogate. -/
theorem encodeChar_three {b x y : UInt8} (h : 0xE0 ≤ b.toNat) (h' : b.toNat < 0xF0)
    (hx : (if b = 0xE0 then 0xA0 else 0x80 : UInt8) ≤ x ∧
      x ≤ (if b = 0xED then 0x9F else 0xBF : UInt8))
    (hy : (0x80 : UInt8) ≤ y ∧ y ≤ 0xBF) :
    String.utf8EncodeChar (scalar b [x, y]) = [b, x, y] := by
  have hscalar : scalar b [x, y] =
      Char.ofNat (64 * (64 * (b.toNat % 16) + x.toNat % 64) + y.toNat % 64) := rfl
  simp only [UInt8.le_iff_toNat_le, ← UInt8.toNat_inj, apply_ite UInt8.toNat,
    UInt8.reduceToNat] at hx hy
  have hsecond : 0x80 ≤ x.toNat ∧ x.toNat ≤ 0xBF ∧ (b.toNat = 0xE0 → 0xA0 ≤ x.toNat) ∧
      (b.toNat = 0xED → x.toNat ≤ 0x9F) := by
    obtain ⟨hlow, hhigh⟩ := hx
    split at hlow <;> split at hhigh <;> omega
  rw [hscalar, String.utf8EncodeChar, toNat_ofNat_of_valid (by omega), if_neg (by omega),
    if_neg (by omega), if_pos (by omega)]
  simp only [List.cons.injEq, and_true, ← UInt8.toNat_inj, UInt8.toNat_ofNat']
  omega

/-- The range of the second byte gives a number that needs four bytes and is in a plane. -/
theorem encodeChar_four {b x y z : UInt8} (h : 0xF0 ≤ b.toNat) (h' : b.toNat < 0xF5)
    (hx : (if b = 0xF0 then 0x90 else 0x80 : UInt8) ≤ x ∧
      x ≤ (if b = 0xF4 then 0x8F else 0xBF : UInt8))
    (hy : (0x80 : UInt8) ≤ y ∧ y ≤ 0xBF) (hz : (0x80 : UInt8) ≤ z ∧ z ≤ 0xBF) :
    String.utf8EncodeChar (scalar b [x, y, z]) = [b, x, y, z] := by
  have hscalar : scalar b [x, y, z] = Char.ofNat
      (64 * (64 * (64 * (b.toNat % 8) + x.toNat % 64) + y.toNat % 64) + z.toNat % 64) := rfl
  simp only [UInt8.le_iff_toNat_le, ← UInt8.toNat_inj, apply_ite UInt8.toNat,
    UInt8.reduceToNat] at hx hy hz
  have hsecond : 0x80 ≤ x.toNat ∧ x.toNat ≤ 0xBF ∧ (b.toNat = 0xF0 → 0x90 ≤ x.toNat) ∧
      (b.toNat = 0xF4 → x.toNat ≤ 0x8F) := by
    obtain ⟨hlow, hhigh⟩ := hx
    split at hlow <;> split at hhigh <;> omega
  rw [hscalar, String.utf8EncodeChar, toNat_ofNat_of_valid (by omega), if_neg (by omega),
    if_neg (by omega), if_neg (by omega)]
  simp only [List.cons.injEq, and_true, ← UInt8.toNat_inj, UInt8.toNat_ofNat']
  omega

/-- A sequence that has all its bytes is the sequence of the character that it is read as. -/
theorem encodeChar_scalar {b : UInt8} {run : List UInt8} (h : Announces b run) :
    String.utf8EncodeChar (scalar b run) = b :: run := by
  obtain ⟨low, high, hlead, hrun⟩ := h
  obtain ⟨hfirst, hlast⟩ := range_of_lead? hlead
  by_cases htwo : b.toNat < 0xE0
  · rw [lead?_two hfirst htwo] at hlead
    match run with
    | [x] =>
      obtain ⟨rfl, rfl⟩ : _ ∧ _ := by simpa using hlead
      exact encodeChar_two hfirst htwo hrun.1
  by_cases hthree : b.toNat < 0xF0
  · rw [lead?_three (by omega) hthree] at hlead
    match run with
    | [x, y] =>
      obtain ⟨rfl, rfl⟩ : _ ∧ _ := by simpa using hlead
      exact encodeChar_three (by omega) hthree hrun.1 hrun.2.1
  · rw [lead?_four (by omega) hlast] at hlead
    match run with
    | [x, y, z] =>
      obtain ⟨rfl, rfl⟩ : _ ∧ _ := by simpa using hlead
      exact encodeChar_four (by omega) hlast hrun.1 hrun.2.1 hrun.2.2.1

/-! ## Texts -/

/-- The bytes of a text are the ones that it has as a string. -/
theorem encode_toList (text : String) : encode text.toList = text.toUTF8.data.toList := by
  have hbytes : (String.ofList text.toList).toByteArray = (encode text.toList).toByteArray :=
    String.toByteArray_ofList
  rw [String.ofList_toList] at hbytes
  rw [String.toUTF8_eq_toByteArray, hbytes, List.data_toByteArray]

/-- A text comes back from its bytes. -/
theorem decode_encode (text : List Char) : decode (encode text) = text := by
  induction text with
  | nil => rw [encode, List.flatMap_nil, decode]
  | cons c text ih =>
      rw [encode, List.flatMap_cons, decode_encodeChar_append, ← encode, ih]

end Baseboard.Utf8
