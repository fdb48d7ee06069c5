import Baseboard.Fru.Header

/-!
# Baseboard.Proofs.Fru.Header

A header is decoded from the first eight bytes of an inventory, and from nothing else.
-/

namespace Baseboard.Fru

namespace Header

variable {data : List UInt8}

theorem decode_of_lt (h : data.length < size) :
    decode data = .error (.headerTooShort data.length) := by
  unfold decode
  split
  · simp only [List.length_cons, size] at h
    omega
  · rfl

theorem size_le_of_decode {valid : Header} (h : decode data = .ok valid) :
    size ≤ data.length := by
  unfold decode at h
  split at h
  · simp only [List.length_cons, size]
    omega
  · contradiction

/-- A header is decoded from its own bytes. -/
theorem decode_take (h : size ≤ data.length) : decode (data.take size) = decode data := by
  iterate 8
    rcases data with _ | ⟨_, data⟩
    · simp [size] at h
  rfl

end Header

end Baseboard.Fru
