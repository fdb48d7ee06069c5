import Baseboard.Calendar

/-!
# Baseboard.Sel.Timestamp

The times of the event log.  One value is reserved for an unspecified time, low
values count from the start of the controller, and all others count from 1970.
-/

namespace Baseboard.Sel

/-- A time in the log, in seconds. -/
inductive Timestamp where
  | unspecified
  /-- Seconds since the controller started. -/
  | preInit (seconds : UInt32)
  /-- Seconds since 1970. -/
  | absolute (seconds : UInt32)
  deriving DecidableEq, Repr

namespace Timestamp

/-- The last value that counts from the start of the controller. -/
def preInitMax : UInt32 := 0x20000000

/-- The time of a raw value. -/
def ofRaw (raw : UInt32) : Timestamp :=
  if raw = 0xFFFFFFFF then unspecified
  else if raw ≤ preInitMax then preInit raw
  else absolute raw

/-- The raw value of a time. -/
def raw : Timestamp → UInt32
  | unspecified => 0xFFFFFFFF
  | preInit seconds => seconds
  | absolute seconds => seconds

/-- The wording of a time. -/
def text : Timestamp → String
  | unspecified => "Unspecified"
  | preInit seconds => s!"Pre-Init {seconds.toNat}s"
  | absolute seconds => (DateTime.ofUnix seconds.toNat).text

/-- No two raw values mean the same time. -/
@[simp] theorem raw_ofRaw (value : UInt32) : (ofRaw value).raw = value := by
  unfold ofRaw
  split
  · next h => exact h.symm
  · split <;> rfl

end Timestamp

end Baseboard.Sel
