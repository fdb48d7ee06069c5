import Baseboard.Fru.Retrieval
import Baseboard.Sel.Clearing
import Baseboard.Sel.Reading
import Baseboard.Settings

/-!
# Baseboard.Console

A management console: usable settings, and what an operator does with a
controller under them.  The operations are dialogues; `Console.link` is the
transport over which a console holds them, which sends a request again after a
timeout as often as the settings allow.
-/

namespace Baseboard

/-- A console, whose settings have been checked. -/
structure Console where
  settings : Settings
  usable : settings.fault? = none

namespace Console

/-- A console with the given settings, if they can be used. -/
def ofSettings (settings : Settings) : Except Failure Console :=
  match h : settings.fault? with
  | none => .ok ⟨settings, h⟩
  | some fault => .error (.settings fault)

/-- The transport of a console. -/
def link {σ : Type} (c : Console) (t : Transport σ) : Transport σ :=
  t.retrying c.settings.retries.toNat

/-! ## Operations -/

/-- Read the inventory of a device. -/
def readFru (c : Console) (device lun : UInt8) : Dialogue Fru.Device :=
  Fru.readDevice device lun c.settings.fruReadBytes

/-- Read the whole event log. -/
def readLog (c : Console) : Dialogue (List Sel.Record) :=
  Sel.readLog c.settings.reservationRetries.toNat

/-- Read a window of the event log, and how many records the log has. -/
def readWindow (c : Console) (offset count : Nat) : Dialogue (List Sel.Record × Nat) :=
  Sel.readWindowOf offset count c.settings.reservationRetries.toNat

/-- Read the last records of the event log, and how many records it has. -/
def readLatest (c : Console) (count : Nat) : Dialogue (List Sel.Record × Nat) :=
  Sel.readLatest count c.settings.reservationRetries.toNat

/-- Clear the event log. -/
def clearLog (c : Console) : Dialogue Unit :=
  Sel.clearLog c.settings.erasePollInterval c.settings.erasePollLimit.toNat

end Console

end Baseboard
