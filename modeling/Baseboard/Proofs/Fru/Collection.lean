import Baseboard.Fru.Retrieval
import Baseboard.Proofs.Exchange

/-!
# Baseboard.Proofs.Fru.Collection

What the controller sees of the reading of an inventory, and what the reading
makes of the replies, apart from any transport: the size is asked for, then the
header, then chunk after chunk until the size is covered.

`Collected` says this of the chunks and `Retrieved` of the whole.  Main statement:
every run of a reading is such a list of exchanges (`retrieved_run`), whatever the
controller replies.
-/

namespace Baseboard.Fru

variable {σ : Type} {device lun : UInt8}

/-! ## Assemblies -/

namespace Assembly

/-- The count of the next read. -/
def count (a : Assembly) : UInt8 := UInt8.ofNat (min a.missing a.chunk.toNat)

/-- The read of the next chunk. -/
def nextRead (a : Assembly) (device lun : UInt8) : FruRead where
  device
  lun
  offset := a.offset
  count := a.count

/-- The assembly with what a read returned, up to the reported size. -/
def extend (a : Assembly) (bytes : List UInt8) : Assembly :=
  { a with collected := a.collected ++ bytes.take a.missing }

theorem isComplete_iff (a : Assembly) : a.isComplete = true ↔ a.missing = 0 := by
  rw [isComplete, decide_eq_true_eq, missing]
  omega

theorem next?_of_complete {a : Assembly} (h : a.missing = 0) : a.next? = none := by
  rw [next?, if_pos (a.isComplete_iff.mpr h)]

theorem next?_of_missing {a : Assembly} (h : 0 < a.missing) :
    a.next? = some (a.offset, a.count) := by
  have hincomplete : ¬ a.isComplete = true := fun hcomplete =>
    absurd (a.isComplete_iff.mp hcomplete) (Nat.ne_of_gt h)
  rw [next?, if_neg hincomplete, count]

theorem push_nil (a : Assembly) : a.push [] = .error (.emptyRead a.offset) := rfl

theorem push_of_ne_nil (a : Assembly) {bytes : List UInt8} (h : bytes ≠ []) :
    a.push bytes = .ok (a.extend bytes) := by
  rw [push, if_neg (by simpa using h)]
  rfl

/-- A read that returns anything brings an assembly nearer to its end. -/
theorem missing_extend_lt {a : Assembly} {bytes : List UInt8} (hmissing : 0 < a.missing)
    (hbytes : bytes ≠ []) : (a.extend bytes).missing < a.missing :=
  missing_lt_of_push_eq_ok (next?_of_missing hmissing) (a.push_of_ne_nil hbytes)

/-- A count is not cut to its width. -/
theorem toNat_count_eq (a : Assembly) : a.count.toNat = min a.missing a.chunk.toNat := by
  have hlt := a.chunk.toNat_lt
  rw [count, UInt8.toNat_ofNat']
  omega

/-- No more is asked for than is missing. -/
theorem toNat_count_le (a : Assembly) : a.count.toNat ≤ a.missing := by
  rw [toNat_count_eq]
  exact Nat.min_le_left _ _

/-- An offset up to the reported size is not cut to its width. -/
theorem toNat_offset_of_le {a : Assembly} (h : a.collected.length ≤ a.total.toNat) :
    a.offset.toNat = a.collected.length := by
  have hlt := a.total.toNat_lt
  rw [offset, UInt16.toNat_ofNat']
  omega

/-- No byte that was asked for is dropped. -/
theorem collected_extend {a : Assembly} {bytes : List UInt8} (h : bytes.length ≤ a.count.toNat) :
    (a.extend bytes).collected = a.collected ++ bytes := by
  rw [extend, List.take_of_length_le (Nat.le_trans h a.toNat_count_le)]

theorem finish_of_complete {a : Assembly} (h : a.missing = 0) :
    a.finish device lun = pure a.collected := by
  rw [finish]
  split
  · rfl
  · next hnext =>
    rw [next?_of_complete h] at hnext
    contradiction

theorem finish_of_missing {a : Assembly} (h : 0 < a.missing) :
    a.finish device lun =
      (Command.readFruData (a.nextRead device lun)).perform.handle fun
        | .error failure => .fail (.fruRead a.offset a.collected failure)
        | .ok chunk =>
          if chunk.data = [] then
            .fail (.fruRead a.offset a.collected (.fru (.emptyRead a.offset)))
          else (a.extend chunk.data).finish device lun := by
  rw [finish]
  split
  · next hnext =>
    rw [next?_of_missing h] at hnext
    contradiction
  · next offset count hnext =>
    rw [next?_of_missing h] at hnext
    obtain ⟨rfl, rfl⟩ := Prod.mk.inj (Option.some.inj hnext)
    congr 1
    funext result
    cases result with
    | error failure => rfl
    | ok chunk =>
        dsimp only
        by_cases hempty : chunk.data = []
        · rw [if_pos hempty]
          split
          · next hpush =>
            rw [hempty, push_nil] at hpush
            cases hpush
            rfl
          · next hpush =>
            rw [hempty, push_nil] at hpush
            contradiction
        · rw [if_neg hempty]
          split
          · next hpush =>
            rw [a.push_of_ne_nil hempty] at hpush
            contradiction
          · next hpush =>
            rw [a.push_of_ne_nil hempty] at hpush
            cases hpush
            rfl

end Assembly

/-! ## Chunks -/

/-- The exchanges that complete an assembly, and the result: all of its bytes, or
the failure of a read together with what was collected before it. -/
inductive Collected (device lun : UInt8) :
    Assembly → List Exchange → Except Failure (List UInt8) → Prop where
  | complete {a : Assembly} (hmissing : a.missing = 0) :
      Collected device lun a [] (.ok a.collected)
  | failed {a : Assembly} {x : Exchange} {failure : Failure} (hmissing : 0 < a.missing)
      (hx : x.Performs (.readFruData (a.nextRead device lun)) (.error failure)) :
      Collected device lun a [x] (.error (.fruRead a.offset a.collected failure))
  /-- A reply without a byte of the inventory. -/
  | stuck {a : Assembly} {x : Exchange} {chunk : Chunk} (hmissing : 0 < a.missing)
      (hx : x.Performs (.readFruData (a.nextRead device lun)) (.ok chunk))
      (hempty : chunk.data = []) :
      Collected device lun a [x]
        (.error (.fruRead a.offset a.collected (.fru (.emptyRead a.offset))))
  | more {a : Assembly} {x : Exchange} {chunk : Chunk} {xs : List Exchange}
      {result : Except Failure (List UInt8)} (hmissing : 0 < a.missing)
      (hx : x.Performs (.readFruData (a.nextRead device lun)) (.ok chunk))
      (hdata : chunk.data ≠ []) (rest : Collected device lun (a.extend chunk.data) xs result) :
      Collected device lun a (x :: xs) result

/-- Every run that completes an assembly collects its chunks. -/
theorem collected_run (a : Assembly) (t : Transport σ) (s : σ) :
    Collected device lun a ((a.finish device lun).run t s).exchanges
      ((a.finish device lun).run t s).result := by
  by_cases hmissing : 0 < a.missing
  · rw [Assembly.finish_of_missing hmissing]
    obtain ⟨x, result, s', hx, hxs, hresult⟩ :=
      Command.exists_performs_handle (.readFruData (a.nextRead device lun)) _ t s
    rw [hxs, hresult]
    cases result with
    | error failure => exact .failed hmissing hx
    | ok chunk =>
        dsimp only
        by_cases hempty : chunk.data = []
        · rw [if_pos hempty]
          exact .stuck hmissing hx hempty
        · rw [if_neg hempty]
          have hlt := Assembly.missing_extend_lt hmissing hempty
          exact .more hmissing hx hempty (collected_run (a.extend chunk.data) t s')
  · have hcomplete : a.missing = 0 := Nat.eq_zero_of_not_pos hmissing
    rw [Assembly.finish_of_complete hcomplete]
    exact .complete hcomplete
termination_by a.missing

/-! ## Whole inventories -/

/-- The read of the common header. -/
def headerRead (device lun : UInt8) : FruRead where
  device
  lun
  offset := 0
  count := 8

/-- The exchanges that read a device's inventory, and the result. -/
inductive Retrieved (device lun chunk : UInt8) :
    List Exchange → Except Failure Device → Prop where
  /-- The size could not be had. -/
  | unsized {x : Exchange} {failure : Failure}
      (hx : x.Performs (.getFruInventoryAreaInfo device lun) (.error failure)) :
      Retrieved device lun chunk [x] (.error failure)
  | headless {x y : Exchange} {extent : Extent} {failure : Failure}
      (hx : x.Performs (.getFruInventoryAreaInfo device lun) (.ok extent))
      (hy : y.Performs (.readFruData (headerRead device lun)) (.error failure)) :
      Retrieved device lun chunk [x, y] (.error failure)
  /-- The header is not valid. -/
  | refused {x y : Exchange} {extent : Extent} {header : Chunk} {fault : Fault}
      (hx : x.Performs (.getFruInventoryAreaInfo device lun) (.ok extent))
      (hy : y.Performs (.readFruData (headerRead device lun)) (.ok header))
      (hstart : Assembly.start extent.size chunk header.data = .error fault) :
      Retrieved device lun chunk [x, y] (.error (.fru fault))
  | broken {x y : Exchange} {extent : Extent} {header : Chunk} {a : Assembly}
      {xs : List Exchange} {failure : Failure}
      (hx : x.Performs (.getFruInventoryAreaInfo device lun) (.ok extent))
      (hy : y.Performs (.readFruData (headerRead device lun)) (.ok header))
      (hstart : Assembly.start extent.size chunk header.data = .ok a)
      (hxs : Collected device lun a xs (.error failure)) :
      Retrieved device lun chunk (x :: y :: xs) (.error failure)
  /-- All bytes are there; they may still say nothing. -/
  | collected {x y : Exchange} {extent : Extent} {header : Chunk} {a : Assembly}
      {xs : List Exchange} {data : List UInt8}
      (hx : x.Performs (.getFruInventoryAreaInfo device lun) (.ok extent))
      (hy : y.Performs (.readFruData (headerRead device lun)) (.ok header))
      (hstart : Assembly.start extent.size chunk header.data = .ok a)
      (hxs : Collected device lun a xs (.ok data)) :
      Retrieved device lun chunk (x :: y :: xs)
        ((Device.ofData device lun extent.size data).mapError .fru)

/-- Every chunk is read from the same device. -/
theorem Collected.exists_read {a : Assembly} {xs : List Exchange}
    {result : Except Failure (List UInt8)} (h : Collected device lun a xs result) :
    ∀ x ∈ xs, ∃ read : FruRead, read.device = device ∧ read.lun = lun ∧
      x.request = (Command.readFruData read).request := by
  induction h with
  | complete => simp
  | failed _ hx =>
      intro y hy
      rw [List.mem_singleton.mp hy]
      exact ⟨_, rfl, rfl, hx.request_eq⟩
  | stuck _ hx =>
      intro y hy
      rw [List.mem_singleton.mp hy]
      exact ⟨_, rfl, rfl, hx.request_eq⟩
  | more _ hx _ _ ih =>
      intro y hy
      rcases List.mem_cons.mp hy with rfl | hy
      · exact ⟨_, rfl, rfl, hx.request_eq⟩
      · exact ih y hy

/-- A reading asks for the size first and then, unless that fails, for the header and
for chunks. -/
theorem Retrieved.exists_cons {chunk : UInt8} {xs : List Exchange}
    {result : Except Failure Device} (h : Retrieved device lun chunk xs result) :
    ∃ x ys, xs = x :: ys ∧ x.request = (Command.getFruInventoryAreaInfo device lun).request ∧
      ∀ y ∈ ys, ∃ read : FruRead, read.device = device ∧ read.lun = lun ∧
        y.request = (Command.readFruData read).request := by
  have hheader {y : Exchange} {ys : List Exchange} {result : Except Failure Chunk}
      (hy : y.Performs (.readFruData (headerRead device lun)) result)
      (hys : ∀ z ∈ ys, ∃ read : FruRead, read.device = device ∧ read.lun = lun ∧
        z.request = (Command.readFruData read).request) :
      ∀ z ∈ y :: ys, ∃ read : FruRead, read.device = device ∧ read.lun = lun ∧
        z.request = (Command.readFruData read).request := by
    intro z hz
    rcases List.mem_cons.mp hz with rfl | hz
    · exact ⟨_, rfl, rfl, hy.request_eq⟩
    · exact hys z hz
  cases h with
  | unsized hx => exact ⟨_, [], rfl, hx.request_eq, by simp⟩
  | headless hx hy => exact ⟨_, _, rfl, hx.request_eq, hheader hy (by simp)⟩
  | refused hx hy => exact ⟨_, _, rfl, hx.request_eq, hheader hy (by simp)⟩
  | broken hx hy _ hxs => exact ⟨_, _, rfl, hx.request_eq, hheader hy hxs.exists_read⟩
  | collected hx hy _ hxs => exact ⟨_, _, rfl, hx.request_eq, hheader hy hxs.exists_read⟩

/-- Every run of a reading is one of the readings listed. -/
theorem retrieved_run (device lun chunk : UInt8) (t : Transport σ) (s : σ) :
    Retrieved device lun chunk ((readDevice device lun chunk).run t s).exchanges
      ((readDevice device lun chunk).run t s).result := by
  let decode (extent : Extent) (data : List UInt8) : Dialogue Device :=
    .done ((Device.ofData device lun extent.size data).mapError .fru)
  let collect (extent : Extent) (header : Chunk) : Dialogue Device :=
    (liftFault (Assembly.start extent.size chunk header.data)).andThen fun a =>
      (a.finish device lun).andThen (decode extent)
  have hread : readDevice device lun chunk =
      (Command.getFruInventoryAreaInfo device lun).perform.andThen fun extent =>
        (Command.readFruData (headerRead device lun)).perform.andThen (collect extent) := rfl
  obtain ⟨x, sized, s', hx, hxs, hresult⟩ :=
    Command.exists_performs_handle (.getFruInventoryAreaInfo device lun) _ t s
  rw [hread, Dialogue.andThen, hxs, hresult]
  cases sized with
  | error failure => exact .unsized hx
  | ok extent =>
      dsimp only
      obtain ⟨y, headed, s'', hy, hys, hresult'⟩ :=
        Command.exists_performs_handle (.readFruData (headerRead device lun)) _ t s'
      rw [Dialogue.andThen, hys, hresult']
      cases headed with
      | error failure => exact .headless hx hy
      | ok header =>
          dsimp only
          cases hstart : Assembly.start extent.size chunk header.data with
          | error fault =>
              have hcollect : collect extent header = .fail (.fru fault) := by
                simp only [collect, hstart]
                rfl
              rw [hcollect]
              exact .refused hx hy hstart
          | ok a =>
              have hcollect : collect extent header =
                  (a.finish device lun).andThen (decode extent) := by
                simp only [collect, hstart]
                rfl
              have hcollected : Collected device lun a ((a.finish device lun).run t s'').exchanges
                  ((a.finish device lun).run t s'').result := collected_run a t s''
              rw [hcollect, Dialogue.run_andThen_done]
              cases hdata : ((a.finish device lun).run t s'').result with
              | error failure =>
                  rw [hdata] at hcollected
                  exact .broken hx hy hstart hcollected
              | ok data =>
                  rw [hdata] at hcollected
                  exact .collected hx hy hstart hcollected

end Baseboard.Fru
