import Baseboard.Proofs.Fru.Supply

/-!
# Baseboard.Proofs.Fru.Pushes

An assembly that is given bytes by anyone, and not only by the reads that it asked for:
nothing at all, more than was asked for, or bytes after it was complete.

Whatever is pushed, it has collected the front of one stream, which is its header followed
by all pushes, up to the reported size and never less than the header.  `OnStream` is the
invariant, kept by one push (`OnStream.afterPush`) and by any number of them
(`OnStream.afterPushes`).  Main statement: `assembled_of_start`.
-/

namespace Baseboard.Fru.Assembly

variable {a : Assembly} {total : UInt16} {chunk : UInt8} {header stream : List UInt8}

/-! ## Pushes in a row -/

/-- The assembly that a push leaves behind: a push that is refused leaves it as it was. -/
def afterPush (a : Assembly) (bytes : List UInt8) : Assembly :=
  match a.push bytes with
  | .ok b => b
  | .error _ => a

/-- The assembly that some pushes leave behind. -/
def afterPushes (a : Assembly) (pushes : List (List UInt8)) : Assembly :=
  pushes.foldl afterPush a

@[simp] theorem afterPush_nil (a : Assembly) : a.afterPush [] = a := rfl

theorem afterPush_of_ne_nil (a : Assembly) {bytes : List UInt8} (h : bytes ≠ []) :
    a.afterPush bytes = a.extend bytes := by
  rw [afterPush, a.push_of_ne_nil h]

/-! ## The invariant -/

/-- Where an assembly stands in the stream of its header and all that was pushed. -/
structure OnStream (total : UInt16) (chunk : UInt8) (stream : List UInt8) (a : Assembly) :
    Prop where
  total_eq : a.total = total
  chunk_eq : a.chunk = max chunk 1
  size_le : Header.size ≤ stream.length
  collected_eq : a.collected = stream.take (max total.toNat Header.size)

namespace OnStream

theorem length_collected (h : a.OnStream total chunk stream) :
    a.collected.length = min (max total.toNat Header.size) stream.length := by
  rw [h.collected_eq, List.length_take]

theorem missing_eq (h : a.OnStream total chunk stream) :
    a.missing = total.toNat - a.collected.length := by
  rw [missing, h.total_eq]

/-- What is pushed goes on where the stream ends, as far as the reported size. -/
theorem collected_extend (h : a.OnStream total chunk stream) (bytes : List UInt8) :
    (a.extend bytes).collected = (stream ++ bytes).take (max total.toNat Header.size) := by
  have hlength := h.length_collected
  have hsize := h.size_le
  have hroom : a.missing = max total.toNat Header.size - stream.length := by
    rw [h.missing_eq]
    omega
  rw [extend, hroom, h.collected_eq, List.take_append]

/-- One push keeps an assembly on the stream. -/
theorem afterPush (h : a.OnStream total chunk stream) (bytes : List UInt8) :
    (a.afterPush bytes).OnStream total chunk (stream ++ bytes) := by
  by_cases hbytes : bytes = []
  · rw [hbytes, afterPush_nil, List.append_nil]
    exact h
  · rw [a.afterPush_of_ne_nil hbytes]
    have hsize := h.size_le
    exact {
      total_eq := h.total_eq
      chunk_eq := h.chunk_eq
      size_le := by simp only [List.length_append]; omega
      collected_eq := h.collected_extend bytes }

/-- So does any number of pushes. -/
theorem afterPushes (h : a.OnStream total chunk stream) (pushes : List (List UInt8)) :
    (a.afterPushes pushes).OnStream total chunk (stream ++ pushes.flatten) := by
  induction pushes generalizing a stream with
  | nil => simpa [Assembly.afterPushes] using h
  | cons bytes pushes ih =>
      have hpushes := ih (h.afterPush bytes)
      rwa [List.append_assoc] at hpushes

/-- A header that is valid starts the stream. -/
theorem of_start (h : start total chunk header = .ok a) :
    a.OnStream total chunk (header.take Header.size) := by
  cases hdecode : Header.decode header with
  | error fault =>
      rw [start_of_error hdecode] at h
      contradiction
  | ok valid =>
      have hlength := List.length_take_of_le (Header.size_le_of_decode hdecode)
      rw [start_of_ok hdecode] at h
      obtain rfl := Except.ok.inj h
      have hwhole : (header.take Header.size).length ≤ max total.toNat Header.size := by omega
      exact {
        total_eq := rfl
        chunk_eq := rfl
        size_le := Nat.le_of_eq hlength.symm
        collected_eq := (List.take_of_length_le hwhole).symm }

/-! ## What is seen of an assembly -/

/-- No assembly has collected more bytes than an offset can count. -/
theorem toNat_offset (h : a.OnStream total chunk stream) :
    a.offset.toNat = a.collected.length := by
  have hlength := h.length_collected
  have htotal := total.toNat_lt
  have hsize : Header.size = 8 := rfl
  rw [offset, UInt16.toNat_ofNat']
  omega

theorem isComplete_iff (h : a.OnStream total chunk stream) :
    a.isComplete = true ↔ total.toNat ≤ a.collected.length := by
  rw [isComplete, decide_eq_true_eq, h.total_eq]

/-- The next read asks for something that is missing, and for no more than a chunk. -/
theorem next?_eq_some (h : a.OnStream total chunk stream) {offset : UInt16} {count : UInt8}
    (hnext : a.next? = some (offset, count)) :
    offset.toNat = a.collected.length ∧ 1 ≤ count.toNat ∧
      count.toNat ≤ max chunk.toNat 1 ∧
      offset.toNat + count.toNat ≤ total.toNat := by
  rcases Nat.eq_zero_or_pos a.missing with hzero | hmissing
  · rw [next?_of_complete hzero] at hnext
    contradiction
  · rw [next?_of_missing hmissing] at hnext
    obtain ⟨rfl, rfl⟩ := Prod.mk.inj (Option.some.inj hnext)
    have hcount := a.toNat_count_eq
    rw [h.chunk_eq, toNat_max_one] at hcount
    rw [h.missing_eq] at hcount hmissing
    rw [h.toNat_offset, hcount]
    omega

end OnStream

theorem next?_eq_none_iff (a : Assembly) : a.next? = none ↔ a.isComplete = true := by
  unfold next?
  split <;> simp_all

/-- What holds of an assembly that was started with a header and then given some pushes. -/
structure Assembled (total : UInt16) (chunk : UInt8) (header : List UInt8)
    (pushes : List (List UInt8)) (a : Assembly) : Prop where
  /-- It has its header and after it what the pushes brought, up to the reported size. -/
  collected_eq : a.collected = (header.take Header.size ++ (pushes.filter (· ≠ [])).flatten).take
    (max total.toNat Header.size)
  toNat_offset : a.offset.toNat = a.collected.length
  isComplete_iff : a.isComplete = true ↔ total.toNat ≤ a.collected.length
  next?_eq_none_iff : a.next? = none ↔ a.isComplete = true
  next?_eq_some : ∀ offset count, a.next? = some (offset, count) →
    offset.toNat = a.collected.length ∧ 1 ≤ count.toNat ∧
      count.toNat ≤ max chunk.toNat 1 ∧
      offset.toNat + count.toNat ≤ total.toNat
  /-- A push of nothing is refused, whether or not anything is missing. -/
  push_nil : a.push [] = .error (.emptyRead a.offset) ∧ a.afterPush [] = a
  /-- Any other push is taken, and it brings bytes as long as some are missing. -/
  push_of_ne_nil : ∀ bytes, bytes ≠ [] → ∃ b, a.push bytes = .ok b ∧
    a.afterPush bytes = b ∧
    (a.isComplete = false →
      total.toNat - b.collected.length < total.toNat - a.collected.length)

/-- Whatever is pushed, an assembly has collected the front of its header and all pushes,
it asks for what comes right behind, and it is complete when the reported size is
covered. -/
theorem assembled_of_start (h : start total chunk header = .ok a) (pushes : List (List UInt8)) :
    Assembled total chunk header pushes (a.afterPushes pushes) := by
  have hstream := (OnStream.of_start h).afterPushes pushes
  generalize a.afterPushes pushes = b at hstream
  refine ⟨?_, hstream.toNat_offset, hstream.isComplete_iff, b.next?_eq_none_iff,
    fun _ _ => hstream.next?_eq_some, ⟨b.push_nil, b.afterPush_nil⟩, fun bytes hbytes => ?_⟩
  · rw [List.flatten_filter_ne_nil]
    exact hstream.collected_eq
  · refine ⟨b.extend bytes, b.push_of_ne_nil hbytes, b.afterPush_of_ne_nil hbytes, ?_⟩
    intro hincomplete
    have hmissing : 0 < b.missing := by
      rw [Nat.pos_iff_ne_zero, Ne, ← b.isComplete_iff, hincomplete]
      exact Bool.false_ne_true
    have hextend := hstream.afterPush bytes
    rw [b.afterPush_of_ne_nil hbytes] at hextend
    rw [← hextend.missing_eq, ← hstream.missing_eq]
    exact missing_extend_lt hmissing hbytes

/-- Twelve bytes from a header and four pushes, one of them empty, one too long and one that
comes too late. -/
theorem assembled_fourPushes :
    let header : List UInt8 := [0x01, 0x00, 0x00, 0x00, 0x00, 0x00, 0x00, 0xFF]
    let pushes : List (List UInt8) := [[1, 2], [], [3, 4, 5], [6]]
    let a : Assembly := ⟨12, 1, header⟩
    start 12 0 header = .ok a ∧ (a.afterPushes pushes).collected = header ++ [1, 2, 3, 4] ∧
      Assembled 12 0 header pushes (a.afterPushes pushes) :=
  ⟨rfl, rfl, assembled_of_start rfl _⟩

end Baseboard.Fru.Assembly
