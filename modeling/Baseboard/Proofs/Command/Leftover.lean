import Baseboard.Command.Reply

/-!
# Baseboard.Proofs.Command.Leftover

What a command leaves over of the data of a reply.

The number of bytes that an output was read from can be told from the output
(`Command.consumed`) and from the length of the data alone (`Command.share`).  What is left
over are the bytes behind them.  One reply is read otherwise: a controller that says who it is
with some bytes of an auxiliary revision, and not all four, has these bytes taken from its
reply and kept nowhere (`Command.Clips`).

Main statement: `leftover_of_decode`.
-/

namespace Baseboard.Command

/-- The bytes at the front of a reply that an output was read from. -/
def consumed : (c : Command) → c.Output → Nat
  | getDeviceId, device => if device.auxiliary.isSome then 15 else 11
  | coldReset, _ => 0
  | getSelfTestResults, _ => 2
  | getChassisStatus, _ => 3
  | chassisControl _, _ => 0
  | getSelInfo, _ => 14
  | reserveSel, _ => 2
  | getSelEntry _, entry => 2 + entry.data.length
  | clearSel _ _, _ => 1
  | getFruInventoryAreaInfo _ _, _ => 3
  | readFruData _, chunk => 1 + chunk.data.length
  | i2cTransfer _, bytes => bytes.length

/-- How many of some bytes a command reads, when there are enough for it. -/
def share (c : Command) (available : Nat) : Nat :=
  match c with
  | getDeviceId => if 15 ≤ available then 15 else 11
  | getSelEntry read => 2 + min read.count.toNat (available - 2)
  | readFruData read => 1 + min read.count.toNat (available - 1)
  | i2cTransfer _ => available
  | c => c.minimum

/-- Whether a reply has a part of an auxiliary revision. -/
def Clips (c : Command) (data : List UInt8) : Prop :=
  c = getDeviceId ∧ 11 < data.length ∧ data.length < 15

/-- What a command leaves over of a reply. -/
structure Leaves (c : Command) (data : List UInt8) (output : c.Output) (rest : List UInt8) :
    Prop where
  consumed_eq : c.consumed output = c.share data.length
  consumed_le : c.consumed output ≤ data.length
  /-- All bytes that were not read are left over, except where a reply is clipped. -/
  rest_eq_iff : rest = data.drop (c.consumed output) ↔ ¬c.Clips data
  rest_of_clips : c.Clips data → rest = []

/-! ## Reading -/

/-- What was not taken from the front is what stands behind it. -/
theorem drop_length_take {α : Type} (n : Nat) (l : List α) :
    l.drop (l.take n).length = l.drop n := by
  rw [List.drop_eq_drop_iff, List.length_take]
  omega

theorem Leaves.of_eq_drop {c : Command} {data rest : List UInt8} {output : c.Output}
    (hc : c ≠ getDeviceId) (hconsumed : c.consumed output = c.share data.length)
    (hle : c.consumed output ≤ data.length) (hrest : rest = data.drop (c.consumed output)) :
    c.Leaves data output rest where
  consumed_eq := hconsumed
  consumed_le := hle
  rest_eq_iff := iff_of_true hrest fun hclips => hc hclips.1
  rest_of_clips hclips := absurd hclips.1 hc

/-- Behind the eleven bytes that say who a controller is, an auxiliary revision is read when
there are four bytes for it. -/
theorem leaves_getDeviceId {data rest : List UInt8} {device : DeviceId}
    (h : DeviceId.read? data = some (device, rest)) : getDeviceId.Leaves data device rest := by
  unfold DeviceId.read? at h
  split at h
  · next tail =>
    obtain ⟨rfl, rfl⟩ := Prod.mk.inj (Option.some.inj h)
    by_cases hfour : 4 ≤ tail.length
    · exact {
        consumed_eq := by simp [consumed, share, hfour]
        consumed_le := by simp [consumed, hfour]
        rest_eq_iff := by simp [consumed, Clips, hfour]
        rest_of_clips := fun hclips => absurd hclips.2.2 (by simp only [List.length_cons]; omega) }
    · have hrest : tail.drop 4 = [] := List.drop_eq_nil_of_le (by omega)
      exact {
        consumed_eq := by simp [consumed, share, hfour]
        consumed_le := by simp [consumed, hfour]
        rest_eq_iff := by simp [consumed, Clips, hfour, hrest]
        rest_of_clips := fun _ => hrest }
  · contradiction

/-- Every command reads what it needs from the front of a reply that is long enough. -/
theorem leaves_of_read? {c : Command} {data rest : List UInt8} {output : c.Output}
    (h : c.read? data = some (output, rest)) : c.Leaves data output rest := by
  cases c with
  | getDeviceId => exact leaves_getDeviceId h
  | coldReset | chassisControl _ =>
      cases h
      exact .of_eq_drop nofun rfl (Nat.zero_le _) rfl
  | i2cTransfer _ =>
      cases h
      exact .of_eq_drop nofun rfl (Nat.le_refl _) (List.drop_length).symm
  | getSelfTestResults | reserveSel =>
      rcases data with _ | ⟨_, _ | ⟨_, tail⟩⟩
      iterate 2 contradiction
      cases h
      exact .of_eq_drop nofun rfl (by simp [consumed]) rfl
  | getChassisStatus | getFruInventoryAreaInfo _ _ =>
      rcases data with _ | ⟨_, _ | ⟨_, _ | ⟨_, tail⟩⟩⟩
      iterate 3 contradiction
      cases h
      exact .of_eq_drop nofun rfl (by simp [consumed]) rfl
  | getSelInfo =>
      iterate 14
        rcases data with _ | ⟨_, data⟩
        · contradiction
      cases h
      exact .of_eq_drop nofun rfl (by simp [consumed]) rfl
  | clearSel _ _ =>
      rcases data with _ | ⟨_, tail⟩
      · contradiction
      cases h
      exact .of_eq_drop nofun rfl (by simp [consumed]) rfl
  | getSelEntry read =>
      rcases data with _ | ⟨_, _ | ⟨_, tail⟩⟩
      iterate 2 contradiction
      cases h
      refine .of_eq_drop nofun ?_ ?_ ?_
      · simp [consumed, share]
      · simp only [consumed, List.length_take, List.length_cons]
        omega
      · rw [consumed, Nat.add_comm]
        exact (drop_length_take _ tail).symm
  | readFruData read =>
      rcases data with _ | ⟨_, tail⟩
      · contradiction
      cases h
      refine .of_eq_drop nofun ?_ ?_ ?_
      · simp [consumed, share]
      · simp only [consumed, List.length_take, List.length_cons]
        omega
      · rw [consumed, Nat.add_comm]
        exact (drop_length_take _ tail).symm

/-! ## What is left over -/

/-- Whatever the command and the data, the bytes that an output was read from stand at the
front, and all others are left over.  Only a controller's identity with one to three bytes
behind it leaves nothing over. -/
theorem leftover_of_decode {c : Command} {data rest : List UInt8} {output : c.Output}
    (h : c.decode data = .ok (output, rest)) : c.Leaves data output rest := by
  unfold decode at h
  split at h
  · next result hread =>
    obtain rfl := Except.ok.inj h
    exact leaves_of_read? hread
  · contradiction

/-- A controller and its auxiliary revision, with a byte to spare. -/
def revisedReply : List UInt8 :=
  [0x20, 0x81, 0x02, 0x04, 0x02, 0xBF, 0x57, 0x01, 0x00, 0x0A, 0x00, 1, 2, 3, 4, 0xEE]

theorem leftover_revisedReply :
    let device : DeviceId :=
      { deviceId := 0x20, deviceRevision := 1, firmwareMajor := 2, firmwareMinor := 4,
        protocolVersion := 2, services := 0xBF, manufacturer := 0x157, product := 0x0A,
        auxiliary := some [1, 2, 3, 4] }
    getDeviceId.decode revisedReply = .ok (device, [0xEE]) ∧
      getDeviceId.Leaves revisedReply device [0xEE] :=
  ⟨rfl, leftover_of_decode rfl⟩

/-- Two of the four bytes of an auxiliary revision are neither kept nor left over. -/
theorem leftover_clipped :
    let data : List UInt8 :=
      [0x20, 0x81, 0x02, 0x04, 0x02, 0xBF, 0x57, 0x01, 0x00, 0x0A, 0x00, 1, 2]
    ∃ device, getDeviceId.decode data = .ok (device, []) ∧ device.auxiliary = none ∧
      getDeviceId.consumed device = 11 ∧ data.drop 11 = [1, 2] :=
  ⟨_, rfl, rfl, rfl, rfl⟩

end Baseboard.Command
