import Baseboard.Command.Reply
import Baseboard.Proofs.Exchange
import Baseboard.Proofs.Indexing

/-!
# Baseboard.Proofs.Command.Reply

What comes of a reply, for every command and every payload.

A command's data is read once more with each byte taken from its place
(`Command.indexed`), which stays within the data (`Command.run_indexed`).  What may come
of a response is `Command.Verdict`: its code refuses the command, or its data is too
short for it, or there is a value.  `Command.Expects` lists how much data is enough.

Main statement: a payload that is not empty comes to one of the three, and to nothing
else (`Command.parse_decided`).
-/

namespace Baseboard

/-! ## Hexadecimal text -/

/-- The digits of hexadecimal text. -/
def lowercaseDigits : List Char := "0123456789abcdef".toList

/-- Whether characters spell out bytes, two digits a byte, the high one first. -/
inductive Spells : List Char → List UInt8 → Prop
  | nil : Spells [] []
  | cons {high low : Char} {b : UInt8} {chars : List Char} {bytes : List UInt8}
      (high_eq : lowercaseDigits[b.toNat / 16]? = some high)
      (low_eq : lowercaseDigits[b.toNat % 16]? = some low)
      (rest : Spells chars bytes) : Spells (high :: low :: chars) (b :: bytes)

theorem lowercaseDigits_getElem? {n : Nat} (h : n < 16) :
    lowercaseDigits[n]? = some (hexDigit n) := by
  have hall : ∀ i : Fin 16, lowercaseDigits[i.val]? = some (hexDigit i.val) := by decide
  exact hall ⟨n, h⟩

/-- The hexadecimal text of bytes spells them out. -/
theorem spells_hex (bytes : List UInt8) : Spells (hex bytes).toList bytes := by
  rw [hex, String.toList_ofList]
  induction bytes with
  | nil => exact .nil
  | cons b bytes ih =>
      have hb := b.toNat_lt
      exact .cons (lowercaseDigits_getElem? (by omega)) (lowercaseDigits_getElem? (by omega)) ih

/-! ## Readings by place -/

/-- The outcome of a self test, from its two bytes. -/
def SelfTest.ofBytes (code detail : UInt8) : SelfTest :=
  match code with
  | 0x55 => passed
  | 0x56 => notImplemented
  | 0x57 => deviceError detail
  | 0x58 => fatalError detail
  | other => deviceSpecific other detail

namespace Command

open Indexed

/-- The first bytes of some data, up to a limit, and those after them. -/
def indexedCounted (data : List UInt8) (limit : Nat) :
    Indexed Failure (List UInt8 × List UInt8) :=
  if data.length ≤ limit then return (data, [])
  else return (← part data 0 limit, ← part data limit data.length)

/-- What the data of a reply says, from its places, and the bytes left over. -/
def indexedOutput : (c : Command) → List UInt8 → Indexed Failure (c.Output × List UInt8)
  | getDeviceId, data => do
    let auxiliary ← if 15 ≤ data.length then some <$> part data 11 15 else pure none
    let rest ← if 15 ≤ data.length then part data 15 data.length else pure []
    let device : DeviceId :=
      { deviceId := ← byteAt data 0
        deviceRevision := (← byteAt data 1) % 16
        firmwareMajor := (← byteAt data 2) % 128
        firmwareMinor := ← byteAt data 3
        protocolVersion := ← byteAt data 4
        services := ← byteAt data 5
        manufacturer :=
          le24 (← byteAt data 6) (← byteAt data 7) (← byteAt data 8) % 0x100000
        product := le16 (← byteAt data 9) (← byteAt data 10)
        auxiliary }
    return (device, rest)
  | coldReset, data => return ((), data)
  | getSelfTestResults, data => do
    let outcome := SelfTest.ofBytes (← byteAt data 0) (← byteAt data 1)
    return (outcome, ← part data 2 data.length)
  | getChassisStatus, data => do
    let power ← byteAt data 0
    let event ← byteAt data 1
    let misc ← byteAt data 2
    let status : ChassisStatus :=
      { powerOn := bit power 0
        powerFault := bit power 1 || bit power 2 || bit power 3 || bit power 4
        restorePolicy := RestorePolicy.ofPower power
        lastPowerEvent := event % 32
        intrusion := bit misc 0
        driveFault := bit misc 2
        coolingFault := bit misc 3 }
    return (status, ← part data 3 data.length)
  | chassisControl _, data => return ((), data)
  | getSelInfo, data => do
    let flags ← byteAt data 13
    let info : Sel.Info :=
      { version := ← byteAt data 0
        entries := le16 (← byteAt data 1) (← byteAt data 2)
        freeSpace := le16 (← byteAt data 3) (← byteAt data 4)
        lastAdd := .ofRaw <|
          le32 (← byteAt data 5) (← byteAt data 6) (← byteAt data 7) (← byteAt data 8)
        lastDelete := .ofRaw <|
          le32 (← byteAt data 9) (← byteAt data 10) (← byteAt data 11) (← byteAt data 12)
        supportsAllocInfo := bit flags 0
        supportsReserve := bit flags 1
        supportsPartialAdd := bit flags 2
        supportsDelete := bit flags 3
        overflow := bit flags 7 }
    return (info, ← part data 14 data.length)
  | reserveSel, data => do
    let token := le16 (← byteAt data 0) (← byteAt data 1)
    return (⟨token⟩, ← part data 2 data.length)
  | getSelEntry read, data => do
    let next : Sel.RecordId := ⟨le16 (← byteAt data 0) (← byteAt data 1)⟩
    let (bytes, rest) ← indexedCounted (← part data 2 data.length) read.count.toNat
    return (⟨next, bytes⟩, rest)
  | clearSel _ _, data => do
    let progress := Sel.EraseProgress.ofBits (← byteAt data 0)
    return (progress, ← part data 1 data.length)
  | getFruInventoryAreaInfo _ _, data => do
    let size := le16 (← byteAt data 0) (← byteAt data 1)
    let byWords := bit (← byteAt data 2) 0
    return (⟨size, byWords⟩, ← part data 3 data.length)
  | readFruData read, data => do
    let (bytes, rest) ← indexedCounted (← part data 1 data.length) read.count.toNat
    let count ← byteAt data 0
    return (⟨count, bytes⟩, rest)
  | i2cTransfer _, data => return (data, [])

/-- The same after the check of the length. -/
def indexed (c : Command) (data : List UInt8) : Indexed Failure (c.Output × List UInt8) :=
  if data.length < c.minimum then throw (.tooShort c.name c.minimum data)
  else c.indexedOutput data

theorem indexedCounted_eq (data : List UInt8) (limit : Nat) :
    indexedCounted data limit = pure (data.take limit, data.drop limit) := by
  by_cases hlimit : data.length ≤ limit
  · rw [indexedCounted, if_pos hlimit, List.take_of_length_le hlimit,
      List.drop_eq_nil_of_le hlimit]
  · have hle := Nat.le_of_not_le hlimit
    rw [indexedCounted, if_neg hlimit, part_front hle, part_back hle]
    rfl

/-! ## They stay in range -/

/-- A command takes the bytes of its minimum apart: with fewer it reads nothing, and with as
many it finds each of them in its place. -/
theorem read?_cases (c : Command) (data : List UInt8) :
    (data.length < c.minimum ∧ c.read? data = none) ∨
      ∃ result, c.minimum ≤ data.length ∧ c.read? data = some result ∧
        c.indexedOutput data = pure result := by
  cases c with
  | getDeviceId =>
      iterate 11
        rcases data with _ | ⟨_, data⟩
        · exact .inl ⟨by simp [minimum], rfl⟩
      refine .inr ⟨_, by simp [minimum], rfl, ?_⟩
      by_cases hfour : 4 ≤ data.length
      · simp [indexedOutput, hfour, part_front, part_back]
      · have hrest : data.drop 4 = [] := List.drop_eq_nil_of_le (by omega)
        simp [indexedOutput, hfour, hrest]
  | coldReset | chassisControl _ | i2cTransfer _ => exact .inr ⟨_, Nat.zero_le _, rfl, rfl⟩
  | getSelfTestResults =>
      rcases data with _ | ⟨code, _ | ⟨detail, rest⟩⟩
      iterate 2 exact .inl ⟨by simp [minimum], rfl⟩
      exact .inr ⟨(SelfTest.ofBytes code detail, rest), by simp [minimum], rfl,
        by simp [indexedOutput]⟩
  | getChassisStatus | getFruInventoryAreaInfo _ _ =>
      rcases data with _ | ⟨_, _ | ⟨_, _ | ⟨_, rest⟩⟩⟩
      iterate 3 exact .inl ⟨by simp [minimum], rfl⟩
      exact .inr ⟨_, by simp [minimum], rfl, by simp [indexedOutput]⟩
  | getSelInfo =>
      iterate 14
        rcases data with _ | ⟨_, data⟩
        · exact .inl ⟨by simp [minimum], rfl⟩
      exact .inr ⟨_, by simp [minimum], rfl, by simp [indexedOutput]⟩
  | reserveSel | getSelEntry _ =>
      rcases data with _ | ⟨_, _ | ⟨_, rest⟩⟩
      iterate 2 exact .inl ⟨by simp [minimum], rfl⟩
      exact .inr ⟨_, by simp [minimum], rfl, by simp [indexedOutput, indexedCounted_eq]⟩
  | clearSel _ _ | readFruData _ =>
      rcases data with _ | ⟨_, rest⟩
      · exact .inl ⟨by simp [minimum], rfl⟩
      exact .inr ⟨_, by simp [minimum], rfl, by simp [indexedOutput, indexedCounted_eq]⟩

/-- Reading the data of a reply never asks for a byte that is not there: below the
minimum nothing is read, and from it on every byte that a command reads has come. -/
theorem run_indexed (c : Command) (data : List UInt8) :
    (c.indexed data).run = some (c.decode data) := by
  obtain ⟨hshort, hread⟩ | ⟨result, henough, hread, hindexed⟩ := c.read?_cases data
  · rw [indexed, if_pos hshort, decode, hread]
    rfl
  · rw [indexed, if_neg (Nat.not_lt.mpr henough), hindexed, decode, hread]
    rfl

/-! ## What a reply comes to -/

/-- The commands by their names, each with the number of bytes that its reply has at least. -/
inductive Expects : Command → String → Nat → Prop
  | getDeviceId : Expects getDeviceId "Get Device ID" 11
  | coldReset : Expects coldReset "Cold Reset" 0
  | getSelfTestResults : Expects getSelfTestResults "Get Self Test Results" 2
  | getChassisStatus : Expects getChassisStatus "Get Chassis Status" 3
  | chassisControl (control : ChassisControl) :
      Expects (chassisControl control) "Chassis Control" 0
  | getSelInfo : Expects getSelInfo "Get SEL Info" 14
  | reserveSel : Expects reserveSel "Reserve SEL" 2
  | getSelEntry (read : EntryRead) : Expects (getSelEntry read) "Get SEL Entry" 2
  | clearSel (reservation : Sel.Reservation) (action : EraseAction) :
      Expects (clearSel reservation action) "Clear SEL" 1
  | getFruInventoryAreaInfo (device lun : UInt8) :
      Expects (getFruInventoryAreaInfo device lun) "Get FRU Inventory Area Info" 3
  | readFruData (read : FruRead) : Expects (readFruData read) "Read FRU Data" 1
  | i2cTransfer (transfer : I2cTransfer) :
      Expects (i2cTransfer transfer) "Wistron OpenBMC I2C Read Write" 0

theorem expects_minimum (c : Command) : c.Expects c.name c.minimum := by
  cases c <;> constructor

/-- What may come of a response. -/
inductive Verdict (c : Command) (response : Response) : Except Failure c.Output → Prop
  /-- The controller refused the command, whatever data it sent along. -/
  | refused {code : CompletionCode} (code_ne : response.code ≠ 0x00)
      (byte_eq : code.byte = response.code) :
      Verdict c response (.error (.refused c.name code))
  /-- The data is too short, and the failure shows all of it. -/
  | tooShort {raw : String} (code_eq : response.code = 0x00)
      (short : response.data.length < c.minimum) (spells : Spells raw.toList response.data) :
      Verdict c response (.error (.malformed c.name c.minimum response.data.length raw))
  /-- The data says something. -/
  | value {output : c.Output} {rest : List UInt8} (code_eq : response.code = 0x00)
      (enough : c.minimum ≤ response.data.length)
      (read_eq : c.read? response.data = some (output, rest)) :
      Verdict c response (.ok output)

theorem verdict_parse (c : Command) (response : Response) :
    c.Verdict response (c.parse response) := by
  obtain ⟨code, data⟩ := response
  by_cases hcode : code = 0x00
  · subst hcode
    obtain ⟨hshort, hread⟩ | ⟨result, henough, hread, -⟩ := c.read?_cases data
    · have hparse : c.parse ⟨0x00, data⟩ = .error (.tooShort c.name c.minimum data) :=
        outcome_of_read?_eq_none hread
      rw [hparse]
      exact .tooShort rfl hshort (spells_hex data)
    · have hparse : c.parse ⟨0x00, data⟩ = .ok result.1 := outcome_of_read? hread
      rw [hparse]
      exact .value rfl henough hread
  · have hparse : c.parse ⟨code, data⟩ = .error (.refused c.name (.ofByte code)) :=
      c.outcome_of_ne_zero hcode
    rw [hparse]
    exact .refused hcode (CompletionCode.byte_ofByte code)

/-- A response that came is not taken for one that did not. -/
theorem Verdict.isTimeout_eq_false {c : Command} {response : Response}
    {result : Except Failure c.Output} (h : c.Verdict response result) {failure : Failure}
    (hresult : result = .error failure) : failure.isTimeout = false := by
  cases h with
  | refused => cases hresult; rfl
  | tooShort => cases hresult; rfl
  | value => contradiction

/-- A payload holds a response unless it is empty.  The response comes to a refusal with
its own code, to data that is shorter than the command expects, or to a value, in this
order and to nothing else; so it never has its request sent again.  Its data is read within
its bounds. -/
theorem parse_decided (c : Command) (payload : List UInt8) :
    c.Expects c.name c.minimum ∧ (Response.ofPayload? payload = none ↔ payload = []) ∧
      ∀ response, Response.ofPayload? payload = some response →
        payload = response.code :: response.data ∧
          c.Verdict response (c.parse response) ∧
          (∀ failure, c.parse response = .error failure → failure.isTimeout = false) ∧
          (c.indexed response.data).run = some (c.decode response.data) := by
  refine ⟨c.expects_minimum, ?_⟩
  cases payload with
  | nil => exact ⟨⟨fun _ => rfl, fun _ => rfl⟩, nofun⟩
  | cons code data =>
      refine ⟨⟨nofun, nofun⟩, ?_⟩
      rintro response ⟨⟩
      have hverdict := c.verdict_parse ⟨code, data⟩
      exact ⟨rfl, hverdict, fun _ => hverdict.isTimeout_eq_false, c.run_indexed data⟩

/-- A refusal counts before the data is looked at, here one byte of the fourteen. -/
example : getSelInfo.parse ⟨0xC1, [0x51]⟩ =
    .error (.refused "Get SEL Info" .invalidCommand) := rfl

end Command

end Baseboard
