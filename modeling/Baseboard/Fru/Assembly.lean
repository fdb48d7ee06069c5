import Baseboard.Fru.Header

/-!
# Baseboard.Fru.Assembly

An inventory put together from reads that each return part of it.  An assembly
starts from a valid header, asks for what comes next, and takes whatever each
read returned, up to the size that the controller reported.

Main statement: a read that returns anything brings an assembly that is not
complete nearer to its end (`Assembly.missing_lt_of_push_eq_ok`).
-/

namespace Baseboard.Fru

/-- An inventory of `total` bytes, read at most `chunk` bytes at a time. -/
structure Assembly where
  total : UInt16
  chunk : UInt8
  collected : List UInt8
  deriving DecidableEq, Repr

namespace Assembly

/-- Start an assembly from the bytes of its header.  A chunk of no bytes counts
as one byte. -/
def start (total : UInt16) (chunk : UInt8) (header : List UInt8) : Except Fault Assembly := do
  let _ ← Header.decode header
  return { total, chunk := max chunk 1, collected := header.take Header.size }

/-- The offset of the next read. -/
def offset (a : Assembly) : UInt16 := UInt16.ofNat a.collected.length

/-- How many bytes are still to come. -/
def missing (a : Assembly) : Nat := a.total.toNat - a.collected.length

/-- Whether the reported size is covered. -/
def isComplete (a : Assembly) : Bool := a.total.toNat ≤ a.collected.length

/-- The offset and the count of the next read, `none` when there is none. -/
def next? (a : Assembly) : Option (UInt16 × UInt8) :=
  if a.isComplete then none
  else some (a.offset, UInt8.ofNat (min a.missing a.chunk.toNat))

/-- Take what a read returned, up to the reported size.  A read that returns
nothing is refused, because reading on would never end. -/
def push (a : Assembly) (bytes : List UInt8) : Except Fault Assembly :=
  if bytes.isEmpty then .error (.emptyRead a.offset)
  else .ok { a with collected := a.collected ++ bytes.take a.missing }

theorem missing_lt_of_push_eq_ok {a b : Assembly} {request : UInt16 × UInt8}
    {bytes : List UInt8} (hnext : a.next? = some request) (hpush : a.push bytes = .ok b) :
    b.missing < a.missing := by
  cases bytes with
  | nil => simp [push] at hpush
  | cons x xs =>
    simp only [push, List.isEmpty_cons, Bool.false_eq_true, if_false, Except.ok.injEq] at hpush
    subst hpush
    simp only [next?, isComplete, decide_eq_true_eq] at hnext
    split at hnext
    · simp at hnext
    · simp only [missing, List.length_append, List.length_take, List.length_cons]
      omega

end Assembly

end Baseboard.Fru
