import Baseboard.Proofs.Fru.Collection
import Baseboard.Proofs.Fru.Header
import Baseboard.Transport.Script

/-!
# Baseboard.Proofs.Fru.Supply

A controller that holds the image of an inventory and supplies it.  It reports the
size of the image and brings the whole header; asked for any other bytes it brings
at least one of them.  How many it brings is up to the controller, and it may add
bytes that were not asked for.

`Image.supplies` says this of one exchange.  Main statement: whatever the controller
brings, the reading ends with what the image says, and its chunks lie end to end from
the header to the size (`readDevice_of_supplies`).
-/

namespace Baseboard.Fru

/-! ## Requests and replies -/

/-- The read of part of an inventory that a request asks for, if it asks for one.  Of
the logical unit a request carries two bits. -/
def FruRead.ofRequest? (r : Request) : Option FruRead :=
  if r.address.function = .storage ∧ r.address.response = false ∧ r.command = 0x11 then
    match r.data with
    | [device, lo, hi, count] =>
      some { device, lun := UInt8.ofNat r.address.lun.val, offset := le16 lo hi, count }
    | _ => none
  else none

/-- A read is known from its request, except for the bits of its unit that are not
sent. -/
@[simp] theorem FruRead.ofRequest?_request (read : FruRead) :
    FruRead.ofRequest? (Command.readFruData read).request =
      some { read with lun := UInt8.ofNat (read.lun.toNat % 4) } := by
  have hdata : (Command.readFruData read).request.data =
      read.device :: toLE16 read.offset ++ [read.count] := rfl
  rw [FruRead.ofRequest?, if_pos ⟨rfl, rfl, rfl⟩, hdata]
  simp only [toLE16, List.cons_append, List.nil_append, le16_toLE16]
  rfl

@[simp] theorem FruRead.ofRequest?_getFruInventoryAreaInfo (device lun : UInt8) :
    FruRead.ofRequest? (Command.getFruInventoryAreaInfo device lun).request = none := rfl

/-- Whether a reply reports a size. -/
def reports (size : UInt16) : Except Failure Response → Bool
  | .ok ⟨0x00, lo :: hi :: _ :: _⟩ => le16 lo hi = size
  | _ => false

/-- Whether a reply brings, behind a count, at least `least` bytes of the front of
`wanted`.  Bytes after the `most` that were asked for may be any. -/
def brings (wanted : List UInt8) (least most : Nat) : Except Failure Response → Bool
  | .ok ⟨0x00, _ :: run⟩ => least ≤ run.length && (run.take most).isPrefixOf wanted
  | _ => false

/-- The bytes of a reply to a read that belong to the inventory: no more of them than
were asked for. -/
def kept (x : Exchange) : List UInt8 :=
  match FruRead.ofRequest? x.request, x.reply with
  | some read, .ok ⟨_, _ :: run⟩ => run.take read.count.toNat
  | _, _ => []

theorem exists_of_reports {size : UInt16} {reply : Except Failure Response}
    (h : reports size reply = true) :
    ∃ lo hi access rest, reply = .ok ⟨0x00, lo :: hi :: access :: rest⟩ ∧
      le16 lo hi = size := by
  unfold reports at h
  split at h
  · exact ⟨_, _, _, _, rfl, of_decide_eq_true h⟩
  · contradiction

theorem exists_of_brings {wanted : List UInt8} {least most : Nat}
    {reply : Except Failure Response} (h : brings wanted least most reply = true) :
    ∃ count run, reply = .ok ⟨0x00, count :: run⟩ ∧ least ≤ run.length ∧
      run.take most <+: wanted := by
  unfold brings at h
  split at h
  · simp only [Bool.and_eq_true, decide_eq_true_eq, List.isPrefixOf_iff_prefix] at h
    exact ⟨_, _, rfl, h⟩
  · contradiction

/-! ## Images -/

/-- The image of an inventory, with room for a header and of a size that a controller
can report. -/
structure Image where
  bytes : List UInt8
  size : UInt16
  length_bytes : bytes.length = size.toNat
  le_length : Header.size ≤ bytes.length

/-- How many bytes a read brings at least: the read of the header brings all of it. -/
def leastBrought (read : FruRead) : Nat :=
  if read.offset = 0 ∧ read.count = 8 then Header.size else 1

theorem one_le_leastBrought (read : FruRead) : 1 ≤ leastBrought read := by
  unfold leastBrought
  split <;> decide

/-- Whether an exchange is one that a controller with this image may take part in: it
reports the size, and it brings bytes from where they were asked for.  Of other
requests nothing is said. -/
def Image.supplies (image : Image) (device lun : UInt8) (x : Exchange) : Bool :=
  match FruRead.ofRequest? x.request with
  | some read =>
    brings (image.bytes.drop read.offset.toNat) (leastBrought read) read.count.toNat x.reply
  | none =>
    x.request ≠ (Command.getFruInventoryAreaInfo device lun).request ||
      reports image.size x.reply

section

variable {image : Image} {device lun : UInt8} {x : Exchange}

/-- The size of an image is reported. -/
theorem Image.extent_of_supplies {result : Except Failure Extent}
    (h : image.supplies device lun x = true)
    (hx : x.Performs (.getFruInventoryAreaInfo device lun) result) :
    ∃ extent, result = .ok extent ∧ extent.size = image.size := by
  have hreports : reports image.size x.reply = true := by
    simpa [supplies, hx.request_eq] using h
  obtain ⟨lo, hi, access, rest, hreply, hsize⟩ := exists_of_reports hreports
  have hread : (Command.getFruInventoryAreaInfo device lun).read? (lo :: hi :: access :: rest) =
      some (⟨le16 lo hi, bit access 0⟩, rest) := rfl
  exact ⟨_, by rw [← hx.outcome_eq, hreply, Command.outcome_of_read? hread], hsize⟩

/-- A read brings a run of the image, from where it was asked for. -/
theorem Image.chunk_of_supplies {read : FruRead} {result : Except Failure Chunk}
    (h : image.supplies device lun x = true) (hx : x.Performs (.readFruData read) result) :
    ∃ chunk, result = .ok chunk ∧ chunk.data = kept x ∧
      chunk.data <+: image.bytes.drop read.offset.toNat ∧
      min (leastBrought read) read.count.toNat ≤ chunk.data.length ∧
      chunk.data.length ≤ read.count.toNat := by
  have hbrings : brings (image.bytes.drop read.offset.toNat) (leastBrought read) read.count.toNat
      x.reply = true := by
    rw [supplies, hx.request_eq, FruRead.ofRequest?_request] at h
    exact h
  obtain ⟨count, run, hreply, hleast, hrun⟩ := exists_of_brings hbrings
  have hread : (Command.readFruData read).read? (count :: run) =
      some (⟨count, run.take read.count.toNat⟩, run.drop read.count.toNat) := rfl
  have hkept : kept x = run.take read.count.toNat := by
    rw [kept, hx.request_eq, FruRead.ofRequest?_request, hreply]
  refine ⟨⟨count, run.take read.count.toNat⟩, ?_, hkept.symm, hrun, ?_, ?_⟩
  · rw [← hx.outcome_eq, hreply, Command.outcome_of_read? hread]
  · rw [List.length_take]
    omega
  · rw [List.length_take]
    omega

/-! ## Chunks -/

/-- Whether an exchange asks for bytes from `start` on: for one at least, for `limit` at
most, and for none behind `size`. -/
def AsksFrom (size limit start : Nat) (x : Exchange) : Prop :=
  ∃ read, FruRead.ofRequest? x.request = some read ∧ read.offset.toNat = start ∧
    1 ≤ read.count.toNat ∧ read.count.toNat ≤ limit ∧ start + read.count.toNat ≤ size

/-- Reads that lie end to end from one offset to another: each asks for bytes from where
the bytes kept of the one before it end. -/
def EndToEnd (size limit : Nat) : Nat → List Exchange → Nat → Prop
  | start, [], stop => start = stop
  | start, x :: xs, stop =>
    AsksFrom size limit start x ∧ EndToEnd size limit (start + (kept x).length) xs stop

/-- An assembly that has collected the front of an image. -/
structure Assembly.OnImage (image : Image) (chunk : UInt8) (a : Assembly) : Prop where
  total_eq : a.total = image.size
  chunk_eq : a.chunk = max chunk 1
  collected : a.collected <+: image.bytes

/-- A chunk of no bytes counts as one byte. -/
theorem toNat_max_one (chunk : UInt8) : (max chunk 1).toNat = max chunk.toNat 1 := by
  have hmax : max chunk 1 = if chunk ≤ 1 then 1 else chunk := rfl
  rw [hmax]
  split
  · next hle =>
    have hle' : chunk.toNat ≤ 1 := UInt8.le_iff_toNat_le.mp hle
    rw [Nat.max_eq_right hle']
    rfl
  · next hlt =>
    have hlt' : ¬ chunk.toNat ≤ 1 := fun hle => hlt (UInt8.le_iff_toNat_le.mpr hle)
    rw [Nat.max_eq_left (by omega)]

namespace Assembly.OnImage

variable {chunk : UInt8} {a : Assembly}

theorem missing_eq (h : a.OnImage image chunk) :
    a.missing = image.bytes.length - a.collected.length := by
  rw [missing, h.total_eq, image.length_bytes]

/-- The next read starts right behind the bytes that were collected. -/
theorem toNat_offset (h : a.OnImage image chunk) : a.offset.toNat = a.collected.length := by
  have hle := h.collected.length_le
  rw [image.length_bytes, ← h.total_eq] at hle
  exact toNat_offset_of_le hle

theorem toNat_count (h : a.OnImage image chunk) :
    a.count.toNat = min a.missing (max chunk.toNat 1) := by
  rw [toNat_count_eq, h.chunk_eq, toNat_max_one]

theorem extend {part : List UInt8} (h : a.OnImage image chunk)
    (hpart : part <+: image.bytes.drop a.collected.length)
    (hlength : part.length ≤ a.count.toNat) :
    (a.extend part).OnImage image chunk where
  total_eq := h.total_eq
  chunk_eq := h.chunk_eq
  collected := by
    rw [Assembly.collected_extend hlength]
    exact isPrefix_append_of_drop h.collected hpart

/-- The next read asks for bytes right behind those collected. -/
theorem asksFrom (h : a.OnImage image chunk) (hmissing : 0 < a.missing)
    (hx : x.request = (Command.readFruData (a.nextRead device lun)).request) :
    AsksFrom image.bytes.length (max chunk.toNat 1) a.collected.length x := by
  have hcount := h.toNat_count
  rw [h.missing_eq] at hcount hmissing
  refine ⟨_, by rw [hx, FruRead.ofRequest?_request], h.toNat_offset, ?_, ?_, ?_⟩
  all_goals
    simp only [nextRead, hcount]
    omega

end Assembly.OnImage

/-- An assembly on an image collects all of it, from the reads of a controller that
supplies it. -/
theorem Image.collected_of_supplies {chunk : UInt8} {a : Assembly} {xs : List Exchange}
    {result : Except Failure (List UInt8)} (ha : a.OnImage image chunk)
    (hsupplies : ∀ x ∈ xs, image.supplies device lun x = true)
    (h : Collected device lun a xs result) :
    result = .ok image.bytes ∧
      EndToEnd image.bytes.length (max chunk.toNat 1) a.collected.length xs
        image.bytes.length := by
  induction h with
  | complete hmissing =>
      rw [ha.missing_eq] at hmissing
      have hall := ha.collected.eq_of_length_le (by omega)
      exact ⟨by rw [hall], by rw [hall]; rfl⟩
  | failed hmissing hx =>
      obtain ⟨_, heq, -⟩ := image.chunk_of_supplies (hsupplies _ List.mem_cons_self) hx
      cases heq
  | @stuck a _ _ hmissing hx hempty =>
      obtain ⟨_, heq, -, -, hleast, -⟩ :=
        image.chunk_of_supplies (hsupplies _ List.mem_cons_self) hx
      cases heq
      have hone := one_le_leastBrought (a.nextRead device lun)
      have hcount : (a.nextRead device lun).count.toNat = min a.missing (max chunk.toNat 1) :=
        ha.toNat_count
      rw [hempty, List.length_nil] at hleast
      omega
  | @more a x chunk xs result hmissing hx hdata rest ih =>
      obtain ⟨_, heq, hkept, hpart, hleast, hmost⟩ :=
        image.chunk_of_supplies (hsupplies _ List.mem_cons_self) hx
      cases heq
      have hoffset : (a.nextRead device lun).offset.toNat = a.collected.length := ha.toNat_offset
      rw [hoffset] at hpart
      obtain ⟨hresult, hreads⟩ := ih (ha.extend hpart hmost) fun y hy =>
        hsupplies y (List.mem_cons_of_mem x hy)
      refine ⟨hresult, ha.asksFrom hmissing hx.request_eq, ?_⟩
      rwa [Assembly.collected_extend hmost, List.length_append, hkept] at hreads

end

/-! ## Whole inventories -/

theorem Assembly.start_of_error {total : UInt16} {chunk : UInt8} {data : List UInt8}
    {fault : Fault} (h : Header.decode data = .error fault) :
    Assembly.start total chunk data = .error fault := by
  rw [start, h]
  rfl

theorem Assembly.start_of_ok {total : UInt16} {chunk : UInt8} {data : List UInt8}
    {header : Header} (h : Header.decode data = .ok header) :
    Assembly.start total chunk data =
      .ok { total, chunk := max chunk 1, collected := data.take Header.size } := by
  rw [start, h]
  rfl

/-- A device whose header is not valid has no inventory. -/
theorem Device.ofData_of_error {device lun : UInt8} {size : UInt16} {data : List UInt8}
    {fault : Fault} (h : Header.decode data = .error fault) :
    Device.ofData device lun size data = .error fault := by
  rw [ofData, Inventory.decode, h]
  rfl

section

variable {image : Image} {device lun chunk : UInt8}

/-- What a controller brings of an image in answer to the read of the header. -/
theorem Image.header_of_supplies {y : Exchange} {header : Chunk}
    (h : image.supplies device lun y = true)
    (hy : y.Performs (.readFruData (headerRead device lun)) (.ok header)) :
    header.data = image.bytes.take Header.size := by
  obtain ⟨_, heq, -, hpart, hleast, hmost⟩ := image.chunk_of_supplies h hy
  cases heq
  have hlength : header.data.length = Header.size := Nat.le_antisymm hmost hleast
  rw [← hlength]
  exact List.prefix_iff_eq_take.mp hpart

theorem Image.start_eq_error {fault : Fault}
    (h : Assembly.start image.size chunk (image.bytes.take Header.size) = .error fault) :
    Header.decode image.bytes = .error fault := by
  have htake := Header.decode_take image.le_length
  cases hdecode : Header.decode image.bytes with
  | error other =>
      rw [Assembly.start_of_error (htake.trans hdecode)] at h
      cases h
      rfl
  | ok header =>
      rw [Assembly.start_of_ok (htake.trans hdecode)] at h
      cases h

/-- An assembly that starts with the header of an image is on the image. -/
theorem Image.start_eq_ok {a : Assembly}
    (h : Assembly.start image.size chunk (image.bytes.take Header.size) = .ok a) :
    a.OnImage image chunk ∧ a.collected.length = Header.size ∧
      ∃ header, Header.decode image.bytes = .ok header := by
  have htake := Header.decode_take image.le_length
  cases hdecode : Header.decode image.bytes with
  | error fault =>
      rw [Assembly.start_of_error (htake.trans hdecode)] at h
      cases h
  | ok header =>
      rw [Assembly.start_of_ok (htake.trans hdecode), List.take_take, Nat.min_self] at h
      cases h
      exact ⟨⟨rfl, rfl, List.take_prefix _ _⟩, List.length_take_of_le image.le_length, header,
        rfl⟩

/-- A reading from a controller that supplies an image. -/
theorem Image.retrieved_of_supplies {xs : List Exchange} {result : Except Failure Device}
    (hsupplies : ∀ x ∈ xs, image.supplies device lun x = true)
    (h : Retrieved device lun chunk xs result) :
    result = (Device.ofData device lun image.size image.bytes).mapError .fru ∧
      ∃ x y reads, xs = x :: y :: reads ∧
        x.request = (Command.getFruInventoryAreaInfo device lun).request ∧
        y.request = (Command.readFruData (headerRead device lun)).request ∧
        (∀ fault, Header.decode image.bytes = .error fault → reads = []) ∧
        (∀ header, Header.decode image.bytes = .ok header →
          EndToEnd image.bytes.length (max chunk.toNat 1) Header.size reads
            image.bytes.length) := by
  cases h with
  | unsized hx =>
      obtain ⟨_, heq, -⟩ := image.extent_of_supplies (hsupplies _ (by simp)) hx
      cases heq
  | headless hx hy =>
      obtain ⟨_, heq, -⟩ := image.chunk_of_supplies (hsupplies _ (by simp)) hy
      cases heq
  | @refused x y extent header fault hx hy hstart =>
      obtain ⟨_, heq, hsize⟩ := image.extent_of_supplies (hsupplies _ (by simp)) hx
      cases heq
      rw [hsize, image.header_of_supplies (hsupplies _ (by simp)) hy] at hstart
      have hdecode := image.start_eq_error hstart
      refine ⟨by rw [Device.ofData_of_error hdecode]; rfl, x, y, [], rfl, hx.request_eq,
        hy.request_eq, fun _ _ => rfl, fun header hheader => ?_⟩
      rw [hdecode] at hheader
      cases hheader
  | @broken x y extent header a reads failure hx hy hstart hreads =>
      obtain ⟨_, heq, hsize⟩ := image.extent_of_supplies (hsupplies _ (by simp)) hx
      cases heq
      rw [hsize, image.header_of_supplies (hsupplies _ (by simp)) hy] at hstart
      obtain ⟨ha, -, -⟩ := image.start_eq_ok hstart
      have hresult := (image.collected_of_supplies ha
        (fun z hz => hsupplies z (by simp [hz])) hreads).1
      cases hresult
  | @collected x y extent header a reads data hx hy hstart hreads =>
      obtain ⟨_, heq, hsize⟩ := image.extent_of_supplies (hsupplies _ (by simp)) hx
      cases heq
      rw [hsize, image.header_of_supplies (hsupplies _ (by simp)) hy] at hstart
      obtain ⟨ha, hlength, header, hheader⟩ := image.start_eq_ok hstart
      obtain ⟨hdata, hends⟩ := image.collected_of_supplies ha
        (fun z hz => hsupplies z (by simp [hz])) hreads
      cases hdata
      rw [hlength] at hends
      refine ⟨by rw [hsize], x, y, reads, rfl, hx.request_eq, hy.request_eq, ?_,
        fun _ _ => hends⟩
      intro fault hfault
      rw [hheader] at hfault
      cases hfault

/-- Whatever is replied, every request goes to the device that is read, at the storage
subsystem of its logical unit. -/
theorem Retrieved.addressed {xs : List Exchange} {result : Except Failure Device}
    (h : Retrieved device lun chunk xs result) :
    ∀ x ∈ xs, x.request.address.function = .storage ∧
      x.request.address.lun.val = lun.toNat % 4 ∧ x.request.address.response = false ∧
      x.request.data.head? = some device := by
  obtain ⟨x, ys, rfl, hx, hys⟩ := h.exists_cons
  intro z hz
  rcases List.mem_cons.mp hz with rfl | hz
  · rw [hx]
    exact ⟨rfl, rfl, rfl, rfl⟩
  · obtain ⟨read, rfl, rfl, hread⟩ := hys z hz
    rw [hread]
    exact ⟨rfl, rfl, rfl, rfl⟩

end

/-- A device is read as the image that the controller holds, whatever runs of it the
replies bring: the result is what the image says, and after the size and the header
are known the chunks lie end to end up to the size.  An image without a valid header
is not read further. -/
theorem readDevice_of_supplies {σ : Type} (image : Image) (t : Transport σ) (s : σ)
    (device lun chunk : UInt8)
    (hsupplies : ∀ x ∈ ((readDevice device lun chunk).run t s).exchanges,
      image.supplies device lun x = true) :
    let r := (readDevice device lun chunk).run t s
    r.result = (Device.ofData device lun image.size image.bytes).mapError .fru ∧
      (∀ x ∈ r.exchanges, x.request.address.function = .storage ∧
        x.request.address.lun.val = lun.toNat % 4 ∧ x.request.address.response = false ∧
        x.request.data.head? = some device) ∧
      ∃ x y reads, r.exchanges = x :: y :: reads ∧
        x.request = (Command.getFruInventoryAreaInfo device lun).request ∧
        y.request = (Command.readFruData (headerRead device lun)).request ∧
        (∀ fault, Header.decode image.bytes = .error fault → reads = []) ∧
        (∀ header, Header.decode image.bytes = .ok header →
          EndToEnd image.bytes.length (max chunk.toNat 1) Header.size reads
            image.bytes.length) := by
  intro r
  have hretrieved : Retrieved device lun chunk r.exchanges r.result :=
    retrieved_run device lun chunk t s
  obtain ⟨hresult, hreads⟩ := image.retrieved_of_supplies hsupplies hretrieved
  exact ⟨hresult, hretrieved.addressed, hreads⟩

/-- An inventory with an internal use area of seven bytes. -/
def sevenBytes : Image where
  bytes := [0x01, 0x01, 0x00, 0x00, 0x00, 0x00, 0x00, 0xFE, 1, 2, 3, 4, 5, 6, 7]
  size := 15
  length_bytes := rfl
  le_length := by decide

/-- The replies of a controller that holds it: the second chunk is longer than asked
for, the others are short. -/
def unevenReplies : List (Except Failure Response) :=
  [.ok ⟨0x00, [15, 0, 0]⟩,
    .ok ⟨0x00, [8, 0x01, 0x01, 0x00, 0x00, 0x00, 0x00, 0x00, 0xFE]⟩,
    .ok ⟨0x00, [4, 1]⟩,
    .ok ⟨0x00, [6, 2, 3, 4, 5, 0xEE, 0xEE]⟩,
    .ok ⟨0x00, [1, 6]⟩,
    .ok ⟨0x00, [1, 7]⟩]

/-- The inventory is read in full, four bytes at a time. -/
theorem readDevice_sevenBytes :
    let r := (readDevice 3 5 4).run Script.transport (.start unevenReplies [])
    (∀ x ∈ r.exchanges, sevenBytes.supplies 3 5 x = true) ∧ r.exchanges.length = 6 ∧
      r.result = (Device.ofData 3 5 15 sevenBytes.bytes).mapError .fru := by
  intro r
  have hsupplies : ∀ x ∈ r.exchanges, sevenBytes.supplies 3 5 x = true := by decide +kernel
  have hlength : r.exchanges.length = 6 := by decide +kernel
  exact ⟨hsupplies, hlength,
    (readDevice_of_supplies sevenBytes Script.transport _ 3 5 4 hsupplies).1⟩

end Baseboard.Fru
