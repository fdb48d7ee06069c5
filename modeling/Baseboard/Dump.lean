import Baseboard.Text.Hex

/-!
# Baseboard.Dump

Hexadecimal dumps of what a command sends and receives, for finding faults in
an exchange.  Dumps are part of a dialogue; whether they are shown is decided
outside it, by a setting that any text but the empty one switches on.
-/

namespace Baseboard

/-- The half of an exchange that a dump shows. -/
inductive Direction where
  | request
  | response
  deriving DecidableEq, Repr

/-- The data of one half of an exchange, under the name of its command. -/
structure Dump where
  direction : Direction
  command : String
  data : List UInt8
  deriving DecidableEq, Repr

namespace Dump

/-- The label that starts the line of a dump. -/
def label : Direction → String
  | .request => "ipmi request"
  | .response => "ipmi response"

/-- The line of a dump: label, command, size, and the bytes one by one. -/
def line (d : Dump) : String :=
  s!"{label d.direction} [{d.command}] ({d.data.length}):" ++
    String.join (d.data.map fun b => " " ++ hex [b])

/-- Whether a setting switches dumps on. -/
def enabled (setting : Option String) : Bool :=
  match setting with
  | none => false
  | some text => !text.isEmpty

/-- The lines shown under a setting. -/
def lines (setting : Option String) (dumps : List Dump) : List String :=
  if enabled setting then dumps.map line else []

end Dump

end Baseboard
