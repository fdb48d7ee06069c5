import Baseboard.Proofs.Fru.Supply
import Baseboard.Proofs.Sel.Look

/-!
# Baseboard.Proofs.Command.Wire

Commands read back from their bytes.  A request shows its subsystem, its number and its
data (`Request.ofBytes?`), and these tell the commands apart and carry their arguments
(`Command.ofRequest?`).  Only the high bits of a logical unit are lost on the way
(`Command.reduced`).

Main statement: two commands are sent as the same bytes exactly when they are the same
command with the same arguments, logical units modulo 4 (`Command.encode_faithful`).
-/

namespace Baseboard

/-! ## Addresses -/

theorem NetworkFunction.requestCode_even (function : NetworkFunction) :
    function.requestCode.toNat % 2 = 0 := by
  cases function with
  | oem code =>
      have hall : ∀ n : Fin 256, (UInt8.ofFin n &&& 0x3E).toNat % 2 = 0 := by decide +kernel
      exact hall code.toFin
  | _ => rfl

namespace Address

theorem toNat_byte_request (function : NetworkFunction) (lun : UInt8) :
    (request function lun).byte.toNat =
      4 * (function.requestCode.toNat % 64) + lun.toNat % 4 := by
  have hfour : UInt8.toNat 4 = 4 := rfl
  have hzero : UInt8.toNat 0 = 0 := rfl
  simp only [byte, request, Bool.false_eq_true, if_false, UInt8.toNat_add, UInt8.toNat_mul,
    UInt8.toNat_ofNat', hfour, hzero]
  omega

/-- The code of a function stands in the high bits, the unit in the low two. -/
theorem byte_request (function : NetworkFunction) (lun : UInt8) :
    (request function lun).byte = function.requestCode <<< 2 ||| lun &&& 3 := by
  apply UInt8.toNat_inj.mp
  have hlun : lun.toNat % 4 < 2 ^ 2 := Nat.mod_lt _ (by decide)
  have hcode : (function.requestCode <<< 2).toNat =
      (function.requestCode.toNat % 64) <<< 2 := by
    rw [UInt8.toNat_shiftLeft, Nat.shiftLeft_eq, Nat.shiftLeft_eq]
    change function.requestCode.toNat * 4 % 256 = function.requestCode.toNat % 64 * 4
    omega
  have hunit : (lun &&& 3).toNat = lun.toNat % 4 := by
    rw [UInt8.toNat_and]
    exact Nat.and_two_pow_sub_one_eq_mod lun.toNat 2
  rw [toNat_byte_request, UInt8.toNat_or, hcode, hunit, ← Nat.shiftLeft_add_eq_or_of_lt hlun,
    Nat.shiftLeft_eq]
  omega

/-- A request leaves the bit clear that marks responses. -/
theorem bit_byte_request (function : NetworkFunction) (lun : UInt8) :
    bit (request function lun).byte 2 = false := by
  have heven := function.requestCode_even
  rw [bit, Nat.testBit_eq_decide_div_mod_eq, toNat_byte_request, decide_eq_false_iff_not]
  omega

end Address

/-! ## Requests -/

/-- The request that some bytes are, if they are one. -/
def Request.ofBytes? : List UInt8 → Option Request
  | address :: command :: data =>
    (Address.ofByte? address).map fun address => ⟨address, command, data⟩
  | _ => none

/-- The order that a number on the wire stands for. -/
def ChassisControl.ofByte? : UInt8 → Option ChassisControl
  | 0 => some .powerDown
  | 1 => some .powerUp
  | 2 => some .powerCycle
  | 3 => some .hardReset
  | 4 => some .pulseDiagnostic
  | 5 => some .acpiSoft
  | _ => none

namespace Command

/-- A command goes to a subsystem that is known from its code. -/
theorem ofByte?_byte_address (c : Command) : Address.ofByte? c.address.byte = some c.address := by
  have hfunction : c.function ∈ [.app, .chassis, .storage, .oem 0x30] := by
    cases c <;> simp [function]
  have hall : ∀ function ∈ [NetworkFunction.app, .chassis, .storage, .oem 0x30],
      ∀ lun : Fin 4, Address.ofByte? (Address.byte ⟨function, lun, false⟩) =
        some ⟨function, lun, false⟩ := by decide
  exact hall c.function hfunction ⟨c.lun.toNat % 4, _⟩

/-- A request is known from the bytes of a command. -/
theorem ofBytes?_encode (c : Command) : Request.ofBytes? c.encode = some c.request := by
  rw [encode, Request.bytes, Request.ofBytes?]
  change (Address.ofByte? c.address.byte).map _ = _
  rw [ofByte?_byte_address]
  rfl

/-! ## Commands -/

/-- A command with no more of its logical unit than its request carries. -/
def reduced : Command → Command
  | getFruInventoryAreaInfo device lun => getFruInventoryAreaInfo device (lun % 4)
  | readFruData read => readFruData { read with lun := read.lun % 4 }
  | c => c

/-- The command that a request sends, if it sends one. -/
def ofRequest? (r : Request) : Option Command :=
  match r.address.function, r.command, r.data with
  | .app, 0x01, [] => some getDeviceId
  | .app, 0x02, [] => some coldReset
  | .app, 0x04, [] => some getSelfTestResults
  | .chassis, 0x01, [] => some getChassisStatus
  | .chassis, 0x02, [control] => (ChassisControl.ofByte? control).map chassisControl
  | .storage, 0x40, [] => some getSelInfo
  | .storage, 0x42, [] => some reserveSel
  | .storage, 0x43, _ => (Sel.EntryRead.ofRequest? r).map getSelEntry
  | .storage, 0x47, _ =>
    (Sel.EraseCommand.ofRequest? r).map fun erase => clearSel erase.reservation erase.action
  | .storage, 0x10, [device] =>
    some (getFruInventoryAreaInfo device (UInt8.ofNat r.address.lun.val))
  | .storage, 0x11, _ => (Fru.FruRead.ofRequest? r).map readFruData
  | .oem 0x30, 0x25, bus :: address :: readCount :: offset :: write =>
    some (i2cTransfer { bus, address, readCount, offset, write })
  | _, _, _ => none

private theorem ofNat_toNat_mod_four (lun : UInt8) : UInt8.ofNat (lun.toNat % 4) = lun % 4 := by
  apply UInt8.toNat_inj.mp
  rw [UInt8.toNat_ofNat', UInt8.toNat_mod]
  change lun.toNat % 4 % 256 = lun.toNat % 4
  omega

/-- A command is known from its request, up to its logical unit. -/
theorem ofRequest?_request (c : Command) : ofRequest? c.request = some c.reduced := by
  cases c with
  | chassisControl control => cases control <;> rfl
  | getSelEntry read =>
      have hread : ofRequest? (getSelEntry read).request =
        (Sel.EntryRead.ofRequest? (getSelEntry read).request).map getSelEntry := rfl
      rw [hread, Sel.EntryRead.ofRequest?_request]
      rfl
  | clearSel reservation action =>
      have herase : ofRequest? (clearSel reservation action).request =
        (Sel.EraseCommand.ofRequest? (clearSel reservation action).request).map fun erase =>
          clearSel erase.reservation erase.action := rfl
      rw [herase, Sel.EraseCommand.ofRequest?_request]
      rfl
  | readFruData read =>
      have hread : ofRequest? (readFruData read).request =
        (Fru.FruRead.ofRequest? (readFruData read).request).map readFruData := rfl
      rw [hread, Fru.FruRead.ofRequest?_request, ofNat_toNat_mod_four]
      rfl
  | getFruInventoryAreaInfo device lun =>
      have hdevice : ofRequest? (getFruInventoryAreaInfo device lun).request =
        some (getFruInventoryAreaInfo device (UInt8.ofNat (lun.toNat % 4))) := rfl
      rw [hdevice, ofNat_toNat_mod_four]
      rfl
  | getDeviceId | coldReset | getSelfTestResults | getChassisStatus | getSelInfo | reserveSel
    | i2cTransfer _ => rfl

/-- What is cut off a unit is not sent. -/
theorem request_reduced (c : Command) : c.reduced.request = c.request := by
  have haddress (function : NetworkFunction) (lun : UInt8) :
      Address.request function (lun % 4) = Address.request function lun := by
    simp [Address.request]
  cases c with
  | getFruInventoryAreaInfo device lun | readFruData read =>
      simp only [request, reduced, address, function, Command.lun, haddress]
      rfl
  | _ => rfl

/-- A command is sent as its request address, its number and its data.  Its bytes are
those of another command only when the two are one, up to the bits of a logical unit that
are not sent. -/
theorem encode_faithful (c : Command) :
    c.encode = c.address.byte :: c.number :: c.data ∧
      c.address.byte = c.function.requestCode <<< 2 ||| c.lun &&& 3 ∧
      bit c.address.byte 2 = false ∧
      ∀ c' : Command, c.encode = c'.encode ↔ c.reduced = c'.reduced := by
  refine ⟨rfl, Address.byte_request _ _, Address.bit_byte_request _ _, ?_⟩
  intro c'
  constructor
  · intro h
    have hrequest : c.request = c'.request := by
      rw [← Option.some.injEq, ← ofBytes?_encode, ← ofBytes?_encode, h]
    rw [← Option.some.injEq, ← ofRequest?_request, ← ofRequest?_request, hrequest]
  · intro h
    rw [encode, encode, ← request_reduced c, h, request_reduced c']

/-- Units four apart are one. -/
example : (getFruInventoryAreaInfo 3 5).encode = [0x29, 0x10, 0x03] := by decide

end Command

end Baseboard
