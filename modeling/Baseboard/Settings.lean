/-!
# Baseboard.Settings

What a console needs to know before it talks to a controller: credentials, the
privilege and cipher suite of the session, and the budgets of the protocols.

Settings are made from a list of changes to the defaults (`Settings.ofChanges`)
and are checked before they are used (`Settings.fault?`); `Settings.build` does
both.  The checks run in a fixed order and the first one that fails is reported.
-/

namespace Baseboard

/-! ## Privileges and secrets -/

/-- The privilege level asked for when a session starts. -/
inductive Privilege where
  | callback
  | user
  | operator
  | administrator
  | oem
  deriving DecidableEq, Repr

namespace Privilege

/-- The number of a level on the wire. -/
def byte : Privilege → UInt8
  | callback => 1
  | user => 2
  | operator => 3
  | administrator => 4
  | oem => 5

/-- The name of a level in messages. -/
def name : Privilege → String
  | callback => "Callback"
  | user => "User"
  | operator => "Operator"
  | administrator => "Administrator"
  | oem => "Oem"

end Privilege

/-- Bytes that reports must not show. -/
structure Secret where
  bytes : List UInt8
  deriving DecidableEq

/-- What a report shows in place of a secret, whatever it holds. -/
def Secret.redacted (_ : Secret) : String := "<secret>"

/-! ## Settings -/

/-- The settings of a console.  Times are in milliseconds. -/
structure Settings where
  username : List UInt8
  password : Secret
  privilege : Privilege
  cipherSuite : UInt8
  /-- How long the transport may wait for one response. -/
  timeout : Nat
  /-- Extra attempts after a timeout. -/
  retries : UInt32
  /-- The most bytes one inventory read asks for. -/
  fruReadBytes : UInt8
  /-- Cancelled log reservations in a row that a log read recovers from. -/
  reservationRetries : UInt32
  /-- The pause between two looks at a log erasure. -/
  erasePollInterval : Nat
  /-- The erase commands that one log erasure may send. -/
  erasePollLimit : UInt32
  deriving DecidableEq

/-- What is wrong with settings, with the offending value. -/
inductive SettingsFault where
  | usernameTooLong (size : Nat)
  | passwordTooLong (size : Nat)
  /-- A cipher suite that is not defined. -/
  | invalidCipherSuite (id : UInt8)
  /-- A cipher suite that is defined and not offered. -/
  | unsupportedCipherSuite (id : UInt8)
  | unsupportedPrivilege (level : Privilege)
  | zeroFruReadSize
  deriving DecidableEq, Repr

/-- The wording of a fault. -/
def SettingsFault.message : SettingsFault → String
  | usernameTooLong size => s!"username is too long: {size} bytes"
  | passwordTooLong size => s!"password is too long: {size} bytes"
  | invalidCipherSuite id => s!"invalid cipher suite ID: {id.toNat}"
  | unsupportedCipherSuite id => s!"unsupported cipher suite ID: {id.toNat}"
  | unsupportedPrivilege level => s!"unsupported privilege level: {level.name}"
  | zeroFruReadSize => "FRU read size must be at least 1 byte"

/-- One change to the settings. -/
inductive Change where
  | username (bytes : List UInt8)
  | password (bytes : List UInt8)
  | privilege (level : Privilege)
  | cipherSuite (id : UInt8)
  | timeout (milliseconds : Nat)
  | retries (count : UInt32)
  | fruReadBytes (count : UInt8)
  | reservationRetries (count : UInt32)
  | erasePollInterval (milliseconds : Nat)
  | erasePollLimit (count : UInt32)
  deriving DecidableEq, Repr

namespace Settings

/-- No credentials, an administrator session under cipher suite 3, five seconds
for a response, one attempt for each request. -/
def standard : Settings where
  username := []
  password := ⟨[]⟩
  privilege := .administrator
  cipherSuite := 3
  timeout := 5000
  retries := 0
  fruReadBytes := 16
  reservationRetries := 3
  erasePollInterval := 1000
  erasePollLimit := 10

/-- The settings after a change; every other setting stays as it is. -/
def apply (s : Settings) : Change → Settings
  | .username bytes => { s with username := bytes }
  | .password bytes => { s with password := ⟨bytes⟩ }
  | .privilege level => { s with privilege := level }
  | .cipherSuite id => { s with cipherSuite := id }
  | .timeout milliseconds => { s with timeout := milliseconds }
  | .retries count => { s with retries := count }
  | .fruReadBytes count => { s with fruReadBytes := count }
  | .reservationRetries count => { s with reservationRetries := count }
  | .erasePollInterval milliseconds => { s with erasePollInterval := milliseconds }
  | .erasePollLimit count => { s with erasePollLimit := count }

/-- The defaults under a list of changes, the last change of a setting winning. -/
def ofChanges (changes : List Change) : Settings := changes.foldl apply standard

/-- The longest username, in bytes. -/
def maxUsername : Nat := 16

/-- The longest password, in bytes. -/
def maxPassword : Nat := 20

/-- The last cipher suite that is defined. -/
def lastCipherSuite : UInt8 := 17

/-- The last cipher suite that is offered. -/
def lastSupportedCipherSuite : UInt8 := 3

/-- The first setting that cannot be used, `none` for usable settings. -/
def fault? (s : Settings) : Option SettingsFault :=
  if maxUsername < s.username.length then some (.usernameTooLong s.username.length)
  else if maxPassword < s.password.bytes.length then
    some (.passwordTooLong s.password.bytes.length)
  else if lastCipherSuite < s.cipherSuite then some (.invalidCipherSuite s.cipherSuite)
  else if lastSupportedCipherSuite < s.cipherSuite then
    some (.unsupportedCipherSuite s.cipherSuite)
  else if s.privilege = .oem then some (.unsupportedPrivilege s.privilege)
  else if s.fruReadBytes = 0 then some .zeroFruReadSize
  else none

/-- The settings themselves when they can be used. -/
def check (s : Settings) : Except SettingsFault Settings :=
  match s.fault? with
  | none => .ok s
  | some fault => .error fault

/-- Usable settings from a list of changes to the defaults. -/
def build (changes : List Change) : Except SettingsFault Settings := (ofChanges changes).check

/-- The defaults can be used. -/
theorem fault?_standard : standard.fault? = none := by decide

end Settings

end Baseboard
