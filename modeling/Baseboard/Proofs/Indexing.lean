import Baseboard.Bytes

/-!
# Baseboard.Proofs.Indexing

Readings that address bytes by their place.  The decoders of this library take byte
lists apart by patterns and cannot miss a byte; a reading that asks for the byte at an
index, or for the part between two of them, can.

An `Indexed` reading has three outcomes: a value, an error that the reading reports
itself, and nothing at all when it asked for bytes that are not there.  A decoder is
shown to stay within its bytes by an indexed reading that never comes to nothing and
says the same (`run_byteAt`, `run_part` and `run_bind` build such statements).
-/

namespace Baseboard

variable {ε α β : Type}

/-- A reading by index.  `none` stands for an access out of range. -/
abbrev Indexed (ε α : Type) := ExceptT ε Option α

namespace Indexed

/-- The byte at an index. -/
def byteAt (bytes : List UInt8) (i : Nat) : Indexed ε UInt8 := ExceptT.lift bytes[i]?

/-- The bytes from one index up to another. -/
def part (bytes : List UInt8) (start stop : Nat) : Indexed ε (List UInt8) :=
  ExceptT.lift <|
    if start ≤ stop ∧ stop ≤ bytes.length then some ((bytes.take stop).drop start) else none

@[simp] theorem byteAt_cons_zero (b : UInt8) (bytes : List UInt8) :
    (byteAt (b :: bytes) 0 : Indexed ε UInt8) = pure b := rfl

@[simp] theorem byteAt_cons_succ (b : UInt8) (bytes : List UInt8) (i : Nat) :
    (byteAt (b :: bytes) (i + 1) : Indexed ε UInt8) = byteAt bytes i := rfl

theorem byteAt_eq {bytes : List UInt8} {i : Nat} {b : UInt8} (h : bytes[i]? = some b) :
    (byteAt bytes i : Indexed ε UInt8) = pure b := by
  rw [byteAt, h]
  rfl

theorem part_eq {bytes : List UInt8} {start stop : Nat} (hstart : start ≤ stop)
    (hstop : stop ≤ bytes.length) :
    (part bytes start stop : Indexed ε (List UInt8)) = pure ((bytes.take stop).drop start) := by
  rw [part, if_pos ⟨hstart, hstop⟩]
  rfl

theorem part_front {bytes : List UInt8} {stop : Nat} (hstop : stop ≤ bytes.length) :
    (part bytes 0 stop : Indexed ε (List UInt8)) = pure (bytes.take stop) :=
  part_eq (Nat.zero_le _) hstop

theorem part_back {bytes : List UInt8} {start : Nat} (hstart : start ≤ bytes.length) :
    (part bytes start bytes.length : Indexed ε (List UInt8)) = pure (bytes.drop start) := by
  rw [part_eq hstart (Nat.le_refl _), List.take_length]

@[simp] theorem part_cons_succ (b : UInt8) (bytes : List UInt8) (start stop : Nat) :
    (part (b :: bytes) (start + 1) (stop + 1) : Indexed ε (List UInt8)) =
      part bytes start stop := by
  simp only [part, List.length_cons, Nat.add_le_add_iff_right, List.take_succ_cons,
    List.drop_succ_cons]

@[simp] theorem part_zero_length (bytes : List UInt8) :
    (part bytes 0 bytes.length : Indexed ε (List UInt8)) = pure bytes := by
  rw [part_back (Nat.zero_le _), List.drop_zero]

/-- A reading in two steps stays in range when both do. -/
theorem run_bind {x : Indexed ε α} {result : Except ε α} {f : α → Indexed ε β}
    {g : α → Except ε β} (hx : x.run = some result) (hf : ∀ a, (f a).run = some (g a)) :
    (x >>= f).run = some (result >>= g) := by
  rw [ExceptT.run_bind, hx]
  cases result with
  | error e => rfl
  | ok a => exact hf a

end Indexed

end Baseboard
