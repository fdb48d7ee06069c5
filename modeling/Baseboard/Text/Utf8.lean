/-!
# Baseboard.Text.Utf8

Bytes as UTF-8 text, for fields that need not hold well-formed text.  A byte
list is cut from the front into pieces: a well-formed sequence stands for its
character, and a maximal ill-formed part stands for one replacement character.

The ill-formed part at the front is the leading byte together with the
continuation bytes that could still have completed it, so decoding never fails
and never skips a byte that may start a new sequence.
-/

namespace Baseboard.Utf8

/-- The character that stands for an ill-formed part. -/
def replacement : Char := Char.ofNat 0xFFFD

/-- What the first byte of a longer sequence announces: the number of
continuation bytes, and the range of the first of them.  The ranges leave out
overlong forms, surrogates and code points past the last plane. -/
structure Lead where
  count : Nat
  low : UInt8
  high : UInt8
  deriving DecidableEq, Repr

/-- The sequence that a byte starts, `none` for a byte that starts none. -/
def lead? (b : UInt8) : Option Lead :=
  if b < 0xC2 then none
  else if b < 0xE0 then some ⟨1, 0x80, 0xBF⟩
  else if b = 0xE0 then some ⟨2, 0xA0, 0xBF⟩
  else if b = 0xED then some ⟨2, 0x80, 0x9F⟩
  else if b < 0xF0 then some ⟨2, 0x80, 0xBF⟩
  else if b = 0xF0 then some ⟨3, 0x90, 0xBF⟩
  else if b < 0xF4 then some ⟨3, 0x80, 0xBF⟩
  else if b = 0xF4 then some ⟨3, 0x80, 0x8F⟩
  else none

/-- The longest run of at most `count` continuation bytes at the front, the
first of them between `low` and `high`. -/
def continuation (low high : UInt8) : Nat → List UInt8 → List UInt8
  | 0, _ => []
  | _ + 1, [] => []
  | n + 1, b :: bs =>
    if low ≤ b ∧ b ≤ high then b :: continuation 0x80 0xBF n bs else []

/-- The character of a complete sequence: the low bits of the first byte, then
six bits from each continuation byte. -/
def scalar (first : UInt8) (rest : List UInt8) : Char :=
  Char.ofNat (rest.foldl (fun acc b => 64 * acc + b.toNat % 64)
    (first.toNat % Nat.pow 2 (6 - rest.length)))

/-- The text of a byte list, with one replacement character for each maximal
ill-formed part. -/
def decode : List UInt8 → List Char
  | [] => []
  | b :: bs =>
    if b < 0x80 then Char.ofNat b.toNat :: decode bs
    else
      match lead? b with
      | none => replacement :: decode bs
      | some ⟨count, low, high⟩ =>
        let run := continuation low high count bs
        (if run.length = count then scalar b run else replacement) ::
          decode (bs.drop run.length)
termination_by bs => bs.length

/-- The bytes of a text. -/
def encode (text : List Char) : List UInt8 := text.flatMap String.utf8EncodeChar

/-- A run of continuation bytes stands at the front of the list it is read from. -/
theorem continuation_append_drop (low high : UInt8) (n : Nat) (bs : List UInt8) :
    continuation low high n bs ++ bs.drop (continuation low high n bs).length = bs := by
  fun_induction continuation low high n bs with
  | case1 => rfl
  | case2 => rfl
  | case3 low high n b bs _ ih => simp [ih]
  | case4 => rfl

theorem length_continuation_le (low high : UInt8) (n : Nat) (bs : List UInt8) :
    (continuation low high n bs).length ≤ n := by
  fun_induction continuation low high n bs with
  | case1 => simp
  | case2 => simp
  | case3 low high n b bs _ ih => simpa using ih
  | case4 => simp

end Baseboard.Utf8
