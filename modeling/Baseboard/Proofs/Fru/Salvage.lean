import Baseboard.Proofs.Fru.Supply

/-!
# Baseboard.Proofs.Fru.Salvage

How the reading of an inventory ends, whatever the controller replies.

Either every chunk brought bytes, and the inventory is what the header and all of them
say; or the last read broke the reading off, and the failure tells its offset, its own
cause and the bytes that were collected before it.  What fails before the first chunk or
after the last one is passed on as it is.

`breach?` reads off the wire why a read of a chunk breaks a reading off.  Main statement:
`readDevice_accounted`.
-/

namespace Baseboard.Fru

variable {device lun : UInt8} {z : Exchange} {read : FruRead}

/-! ## Reads of chunks -/

/-- Why the result of a read at an offset breaks the reading off: the read failed, or it
brought nothing. -/
def breachOf (offset : UInt16) : Except Failure Chunk → Option Failure
  | .error failure => some failure
  | .ok chunk => if chunk.data = [] then some (.fru (.emptyRead offset)) else none

/-- Why a read of a chunk breaks the reading off; `none` when it does not. -/
def breach? (z : Exchange) : Option Failure :=
  (FruRead.ofRequest? z.request).bind fun read =>
    breachOf read.offset ((Command.readFruData read).outcome z.reply)

/-- The reply to a read says the same whatever the logical unit that was read. -/
theorem parse_readFruData_lun (read : FruRead) (lun : UInt8) :
    (Command.readFruData { read with lun }).parse = (Command.readFruData read).parse := by
  funext response
  unfold Command.parse
  cases response.data <;> rfl

theorem breach?_of_performs {result : Except Failure Chunk}
    (hz : z.Performs (.readFruData read) result) : breach? z = breachOf read.offset result := by
  rw [← hz.outcome_eq, breach?, hz.request_eq, FruRead.ofRequest?_request, Option.bind_some,
    Command.outcome, parse_readFruData_lun]
  rfl

theorem exists_run_of_performs {chunk : Chunk} (hz : z.Performs (.readFruData read) (.ok chunk)) :
    ∃ count run, z.reply = .ok ⟨0x00, count :: run⟩ ∧
      chunk.data = run.take read.count.toNat := by
  obtain ⟨data, rest, hreply, hread⟩ := hz.exists_read?
  cases data with
  | nil => contradiction
  | cons count run =>
      cases hread
      exact ⟨count, run, hreply, rfl⟩

/-- What a read brings is kept, and it is no more than was asked for. -/
theorem kept_of_performs {chunk : Chunk} (hz : z.Performs (.readFruData read) (.ok chunk)) :
    kept z = chunk.data ∧ chunk.data.length ≤ read.count.toNat := by
  obtain ⟨count, run, hreply, hdata⟩ := exists_run_of_performs hz
  rw [kept, hz.request_eq, FruRead.ofRequest?_request, hreply, hdata]
  exact ⟨rfl, List.length_take_le _ _⟩

/-! ## Assemblies -/

namespace Assembly

variable {a : Assembly} {bytes : List UInt8}

/-- What holds of every assembly under way: it has its header, and no more bytes than were
reported. -/
structure Underway (a : Assembly) : Prop where
  size_le : Header.size ≤ a.collected.length
  length_le : a.collected.length ≤ max a.total.toNat Header.size

theorem toNat_offset_of_missing (h : 0 < a.missing) : a.offset.toNat = a.collected.length := by
  rw [missing] at h
  exact toNat_offset_of_le (by omega)

theorem Underway.extend (ha : a.Underway) (h : bytes.length ≤ a.count.toNat) :
    (a.extend bytes).Underway where
  size_le := by
    rw [collected_extend h, List.length_append]
    exact Nat.le_add_right_of_le ha.size_le
  length_le := by
    have htotal : (a.extend bytes).total = a.total := rfl
    have hcount := Nat.le_trans h a.toNat_count_le
    have hlength := ha.length_le
    rw [missing] at hcount
    rw [collected_extend h, List.length_append, htotal]
    omega

/-- An assembly that lacks nothing has as many bytes as were reported, and no fewer than a
header. -/
theorem Underway.length_eq (ha : a.Underway) (h : a.missing = 0) :
    a.collected.length = max a.total.toNat Header.size := by
  have hsize := ha.size_le
  have hlength := ha.length_le
  rw [missing] at h
  omega

end Assembly

/-! ## Chunks -/

/-- Chunks that brought all that was missing behind `front`, and the bytes of the whole. -/
structure Gathered (front : List UInt8) (reads : List Exchange) (data : List UInt8) : Prop where
  data_eq : data = front ++ reads.flatMap kept
  unbroken : ∀ z ∈ reads, breach? z = none

/-- A reading that was broken off by its last read: what was collected behind `front` before
it, and why it broke off. -/
structure BrokenOff (front : List UInt8) (reads : List Exchange) (offset : UInt16)
    (collected : List UInt8) (source : Failure) : Prop where
  exists_last : ∃ before z read, reads = before ++ [z] ∧
    (∀ y ∈ before, breach? y = none) ∧ breach? z = some source ∧
    FruRead.ofRequest? z.request = some read ∧ read.offset = offset ∧
    collected = front ++ before.flatMap kept
  toNat_offset : offset.toNat = collected.length

variable {a : Assembly} {xs : List Exchange}

/-- Every chunk brings a byte that was missing, except one that breaks the reading off. -/
theorem Collected.length_le {result : Except Failure (List UInt8)}
    (h : Collected device lun a xs result) : xs.length ≤ a.missing := by
  induction h with
  | complete => exact Nat.zero_le _
  | failed hmissing => exact hmissing
  | stuck hmissing => exact hmissing
  | more hmissing _ hdata _ ih =>
      rw [List.length_cons]
      exact Nat.lt_of_le_of_lt ih (Assembly.missing_extend_lt hmissing hdata)

theorem Gathered.cons {front part data : List UInt8} {reads : List Exchange}
    (h : Gathered (front ++ part) reads data) (hkept : kept z = part)
    (hz : breach? z = none) : Gathered front (z :: reads) data where
  data_eq := by rw [h.data_eq, List.flatMap_cons, hkept, List.append_assoc]
  unbroken := List.forall_mem_cons.mpr ⟨hz, h.unbroken⟩

theorem BrokenOff.cons {front part collected : List UInt8} {reads : List Exchange}
    {offset : UInt16} {source : Failure}
    (h : BrokenOff (front ++ part) reads offset collected source) (hkept : kept z = part)
    (hz : breach? z = none) : BrokenOff front (z :: reads) offset collected source where
  exists_last := by
    obtain ⟨before, y, read, rfl, hbefore, hy, hread, hoffset, hcollected⟩ := h.exists_last
    refine ⟨z :: before, y, read, rfl, List.forall_mem_cons.mpr ⟨hz, hbefore⟩, hy, hread,
      hoffset, ?_⟩
    rw [hcollected, List.flatMap_cons, hkept, List.append_assoc]
  toNat_offset := h.toNat_offset

/-- The read that breaks a reading off stands right behind what was collected. -/
theorem brokenOff_singleton {source : Failure} (hmissing : 0 < a.missing)
    (hrequest : z.request = (Command.readFruData (a.nextRead device lun)).request)
    (hz : breach? z = some source) : BrokenOff a.collected [z] a.offset a.collected source where
  exists_last := by
    refine ⟨[], z, { a.nextRead device lun with lun := UInt8.ofNat (lun.toNat % 4) }, rfl,
      by simp, hz, ?_, rfl, by simp⟩
    rw [hrequest, FruRead.ofRequest?_request]
    rfl
  toNat_offset := Assembly.toNat_offset_of_missing hmissing

/-- However the chunks end, what is told of them is what they brought. -/
theorem Collected.gathered_or_brokenOff {result : Except Failure (List UInt8)}
    (h : Collected device lun a xs result) (ha : a.Underway) :
    (∃ data, result = .ok data ∧ Gathered a.collected xs data ∧
        data.length = max a.total.toNat Header.size) ∨
      ∃ offset collected source, result = .error (.fruRead offset collected source) ∧
        BrokenOff a.collected xs offset collected source := by
  induction h with
  | complete hmissing =>
      exact .inl ⟨_, rfl, ⟨by simp, by simp⟩, ha.length_eq hmissing⟩
  | failed hmissing hx =>
      exact .inr ⟨_, _, _, rfl,
        brokenOff_singleton hmissing hx.request_eq (breach?_of_performs hx)⟩
  | stuck hmissing hx hempty =>
      have hbreach := breach?_of_performs hx
      rw [breachOf, if_pos hempty] at hbreach
      exact .inr ⟨_, _, _, rfl, brokenOff_singleton hmissing hx.request_eq hbreach⟩
  | @more a x chunk xs result hmissing hx hdata _ ih =>
      have hbreach := breach?_of_performs hx
      rw [breachOf, if_neg hdata] at hbreach
      obtain ⟨hkept, hcount⟩ := kept_of_performs hx
      have hcount' : chunk.data.length ≤ a.count.toNat := hcount
      have hcollected := Assembly.collected_extend hcount'
      rcases ih (ha.extend hcount') with ⟨data, hresult, hgathered, hlength⟩ |
        ⟨offset, collected, source, hresult, hbroken⟩
      · rw [hcollected] at hgathered
        exact .inl ⟨data, hresult, hgathered.cons hkept hbreach, hlength⟩
      · rw [hcollected] at hbroken
        exact .inr ⟨offset, collected, source, hresult, hbroken.cons hkept hbreach⟩

theorem BrokenOff.exists_breach {front collected : List UInt8} {reads : List Exchange}
    {offset : UInt16} {source : Failure} (h : BrokenOff front reads offset collected source) :
    ∃ z ∈ reads, breach? z ≠ none := by
  obtain ⟨before, z, read, rfl, -, hz, -⟩ := h.exists_last
  exact ⟨z, by simp, by simp [hz]⟩

/-! ## Headers -/

theorem Assembly.decode_of_start_eq_error {total : UInt16} {chunk : UInt8} {data : List UInt8}
    {fault : Fault} (h : start total chunk data = .error fault) :
    Header.decode data = .error fault := by
  cases hdecode : Header.decode data with
  | error other =>
      rw [start_of_error hdecode] at h
      rw [Except.error.inj h]
  | ok valid =>
      rw [start_of_ok hdecode] at h
      contradiction

/-- Whether the read of the header brought one, and its bytes. -/
structure BringsHeader (device lun : UInt8) (y : Exchange) (front : List UInt8) : Prop where
  length_eq : front.length = Header.size
  valid : ∃ valid, Header.decode front = .ok valid
  exists_chunk : ∃ header : Chunk,
    y.Performs (.readFruData (headerRead device lun)) (.ok header) ∧ header.data = front

/-- An assembly starts with the header that was read. -/
theorem Assembly.bringsHeader_of_start {y : Exchange} {header : Chunk} {total : UInt16}
    {chunk : UInt8} {a : Assembly}
    (hy : y.Performs (.readFruData (headerRead device lun)) (.ok header))
    (hstart : start total chunk header.data = .ok a) :
    BringsHeader device lun y a.collected ∧ a.Underway ∧ a.total = total ∧
      a.missing = total.toNat - Header.size := by
  cases hdecode : Header.decode header.data with
  | error fault =>
      rw [start_of_error hdecode] at hstart
      contradiction
  | ok valid =>
      have hlength : header.data.length = Header.size :=
        Nat.le_antisymm (kept_of_performs hy).2 (Header.size_le_of_decode hdecode)
      rw [start_of_ok hdecode, List.take_of_length_le (Nat.le_of_eq hlength)] at hstart
      obtain rfl := Except.ok.inj hstart
      refine ⟨⟨hlength, ⟨valid, hdecode⟩, header, hy, rfl⟩,
        ⟨Nat.le_of_eq hlength.symm, ?_⟩, rfl, ?_⟩
      · exact Nat.le_trans (Nat.le_of_eq hlength) (Nat.le_max_right _ _)
      · rw [missing, hlength]

theorem Device.data_of_ofData {size : UInt16} {data : List UInt8} {d : Device}
    (h : ofData device lun size data = .ok d) : d.data = data := by
  unfold ofData at h
  cases hinventory : Inventory.decode data with
  | error fault =>
      rw [hinventory] at h
      contradiction
  | ok inventory =>
      rw [hinventory] at h
      rw [← Except.ok.inj h]

/-! ## Whole readings -/

/-- What became of a reading of which the size is known, by the read of its header and the
reads of its chunks. -/
structure Accounted (device lun : UInt8) (size : UInt16) (y : Exchange) (reads : List Exchange)
    (result : Except Failure Device) : Prop where
  /-- A header that could not be read is the end, and its failure is passed on. -/
  headless : ∀ failure, y.Performs (.readFruData (headerRead device lun)) (.error failure) →
    reads = [] ∧ result = .error failure
  /-- So is a header that is not valid. -/
  refused : ∀ header fault, y.Performs (.readFruData (headerRead device lun)) (.ok header) →
    Header.decode header.data = .error fault → reads = [] ∧ result = .error (.fru fault)
  /-- When all chunks brought something, the result is what the bytes say. -/
  unbroken : ∀ front, BringsHeader device lun y front → (∀ z ∈ reads, breach? z = none) →
    result = (Device.ofData device lun size (front ++ reads.flatMap kept)).mapError .fru
  of_ok : ∀ d, result = .ok d → d.data.length = max size.toNat Header.size ∧
    ∃ front, BringsHeader device lun y front ∧ Gathered front reads d.data
  /-- A failure wraps another one just when a chunk broke the reading off; but what the
  transport itself reports in the place of a header is passed on, even if it looks so. -/
  broken_iff : (∃ z ∈ reads, breach? z ≠ none) ↔
    ∃ offset collected source, result = .error (.fruRead offset collected source) ∧
      ¬y.Performs (.readFruData (headerRead device lun))
        (.error (.fruRead offset collected source))
  of_broken : ∀ offset collected source, result = .error (.fruRead offset collected source) →
    y.Performs (.readFruData (headerRead device lun))
        (.error (.fruRead offset collected source)) ∨
      ∃ front, BringsHeader device lun y front ∧
        BrokenOff front reads offset collected source

section

variable {size : UInt16} {y : Exchange} {reads : List Exchange}

theorem accounted_headless {failure : Failure}
    (hy : y.Performs (.readFruData (headerRead device lun)) (.error failure)) :
    Accounted device lun size y [] (.error failure) where
  headless other hother := by
    cases hy.unique hother
    exact ⟨rfl, rfl⟩
  refused header fault hheader _ := by cases hy.unique hheader
  unbroken front hfront _ := by
    obtain ⟨header, hheader, -⟩ := hfront.exists_chunk
    cases hy.unique hheader
  of_ok d h := by cases h
  broken_iff := by
    constructor
    · rintro ⟨z, hz, -⟩
      cases hz
    · rintro ⟨offset, collected, source, hresult, hnot⟩
      cases hresult
      exact absurd hy hnot
  of_broken offset collected source h := by
    cases h
    exact .inl hy

theorem accounted_refused {header : Chunk} {fault : Fault}
    (hy : y.Performs (.readFruData (headerRead device lun)) (.ok header))
    (hdecode : Header.decode header.data = .error fault) :
    Accounted device lun size y [] (.error (.fru fault)) where
  headless failure hfailure := by cases hy.unique hfailure
  refused other fault' hother hfault := by
    cases hy.unique hother
    rw [hdecode] at hfault
    cases hfault
    exact ⟨rfl, rfl⟩
  unbroken front hfront _ := by
    obtain ⟨-, ⟨valid, hvalid⟩, other, hother, rfl⟩ := hfront
    cases hy.unique hother
    rw [hdecode] at hvalid
    cases hvalid
  of_ok d h := by cases h
  broken_iff := by
    constructor
    · rintro ⟨z, hz, -⟩
      cases hz
    · rintro ⟨_, _, _, hresult, -⟩
      cases hresult
  of_broken offset collected source h := by cases h

theorem accounted_brokenOff {front collected : List UInt8} {offset : UInt16} {source : Failure}
    (hfront : BringsHeader device lun y front)
    (h : BrokenOff front reads offset collected source) :
    Accounted device lun size y reads (.error (.fruRead offset collected source)) := by
  obtain ⟨-, ⟨valid, hvalid⟩, header, hy, rfl⟩ := id hfront
  obtain ⟨z, hz, hbreach⟩ := h.exists_breach
  exact {
    headless := fun failure hfailure => by cases hy.unique hfailure
    refused := fun other fault hother hfault => by
      cases hy.unique hother
      rw [hvalid] at hfault
      cases hfault
    unbroken := fun _ _ hreads => absurd (hreads z hz) hbreach
    of_ok := fun d hd => by cases hd
    broken_iff := ⟨fun _ => ⟨offset, collected, source, rfl, fun hfailure => by
      cases hy.unique hfailure⟩, fun _ => ⟨z, hz, hbreach⟩⟩
    of_broken := fun _ _ _ hresult => by
      cases hresult
      exact .inr ⟨_, hfront, h⟩ }

theorem accounted_gathered {front data : List UInt8} (hfront : BringsHeader device lun y front)
    (h : Gathered front reads data) (hlength : data.length = max size.toNat Header.size) :
    Accounted device lun size y reads ((Device.ofData device lun size data).mapError .fru) := by
  obtain ⟨-, ⟨valid, hvalid⟩, header, hy, rfl⟩ := id hfront
  have hnot : ∀ offset collected source,
      (Device.ofData device lun size data).mapError Failure.fru ≠
        .error (.fruRead offset collected source) := by
    intro offset collected source hbroken
    cases hdevice : Device.ofData device lun size data with
    | error fault =>
        rw [hdevice] at hbroken
        cases hbroken
    | ok device =>
        rw [hdevice] at hbroken
        cases hbroken
  exact {
    headless := fun failure hfailure => by cases hy.unique hfailure
    refused := fun other fault hother hfault => by
      cases hy.unique hother
      rw [hvalid] at hfault
      cases hfault
    unbroken := fun _ hfront' _ => by
      obtain ⟨other, hother, rfl⟩ := hfront'.exists_chunk
      cases hy.unique hother
      rw [h.data_eq]
    of_ok := fun d hd => by
      cases hdevice : Device.ofData device lun size data with
      | error fault =>
          rw [hdevice] at hd
          cases hd
      | ok device =>
          rw [hdevice] at hd
          cases hd
          rw [Device.data_of_ofData hdevice]
          exact ⟨hlength, _, hfront, h⟩
    broken_iff := by
      constructor
      · rintro ⟨z, hz, hbreach⟩
        exact absurd (h.unbroken z hz) hbreach
      · rintro ⟨offset, collected, source, hresult, -⟩
        exact absurd hresult (hnot offset collected source)
    of_broken := fun offset collected source hresult =>
      absurd hresult (hnot offset collected source) }

/-- A reading asks for the size, and is over if it cannot be had.  Otherwise it asks for the
header and then for chunks, no more of them than there are bytes behind the header, and all
of it is accounted for. -/
theorem Retrieved.accounted {chunk : UInt8} {xs : List Exchange} {result : Except Failure Device}
    (h : Retrieved device lun chunk xs result) :
    ∃ x rest, xs = x :: rest ∧
      x.request = (Command.getFruInventoryAreaInfo device lun).request ∧
      (∀ failure, x.Performs (.getFruInventoryAreaInfo device lun) (.error failure) →
        rest = [] ∧ result = .error failure) ∧
      ∀ extent, x.Performs (.getFruInventoryAreaInfo device lun) (.ok extent) →
        ∃ y reads, rest = y :: reads ∧
          y.request = (Command.readFruData (headerRead device lun)).request ∧
          (∀ z ∈ reads, ∃ read : FruRead, read.device = device ∧ read.lun = lun ∧
            z.request = (Command.readFruData read).request) ∧
          reads.length ≤ extent.size.toNat - Header.size ∧
          Accounted device lun extent.size y reads result := by
  cases h with
  | @unsized x failure hx =>
      refine ⟨x, [], rfl, hx.request_eq, fun other hother => ?_, fun extent hextent => ?_⟩
      · cases hx.unique hother
        exact ⟨rfl, rfl⟩
      · cases hx.unique hextent
  | @headless x y extent failure hx hy =>
      refine ⟨x, [y], rfl, hx.request_eq, fun other hother => ?_, fun extent' hextent => ?_⟩
      · cases hx.unique hother
      · exact ⟨y, [], rfl, hy.request_eq, by simp, Nat.zero_le _, accounted_headless hy⟩
  | @refused x y extent header fault hx hy hstart =>
      refine ⟨x, [y], rfl, hx.request_eq, fun other hother => ?_, fun extent' hextent => ?_⟩
      · cases hx.unique hother
      · exact ⟨y, [], rfl, hy.request_eq, by simp, Nat.zero_le _,
          accounted_refused hy (Assembly.decode_of_start_eq_error hstart)⟩
  | @broken x y extent header a reads failure hx hy hstart hreads =>
      refine ⟨x, y :: reads, rfl, hx.request_eq, fun other hother => ?_,
        fun extent' hextent => ?_⟩
      · cases hx.unique hother
      · cases hx.unique hextent
        obtain ⟨hfront, ha, htotal, hmissing⟩ := Assembly.bringsHeader_of_start hy hstart
        refine ⟨y, reads, rfl, hy.request_eq, hreads.exists_read,
          hmissing ▸ hreads.length_le, ?_⟩
        rcases hreads.gathered_or_brokenOff ha with ⟨_, hresult, -⟩ |
          ⟨offset, collected, source, hresult, hbroken⟩
        · cases hresult
        · cases hresult
          exact accounted_brokenOff hfront hbroken
  | @collected x y extent header a reads data hx hy hstart hreads =>
      refine ⟨x, y :: reads, rfl, hx.request_eq, fun other hother => ?_,
        fun extent' hextent => ?_⟩
      · cases hx.unique hother
      · cases hx.unique hextent
        obtain ⟨hfront, ha, htotal, hmissing⟩ := Assembly.bringsHeader_of_start hy hstart
        refine ⟨y, reads, rfl, hy.request_eq, hreads.exists_read,
          hmissing ▸ hreads.length_le, ?_⟩
        rcases hreads.gathered_or_brokenOff ha with ⟨_, hresult, hgathered, hlength⟩ |
          ⟨_, _, _, hresult, -⟩
        · cases hresult
          exact accounted_gathered hfront hgathered (htotal ▸ hlength)
        · cases hresult

end

/-- However the controller replies, reading an inventory ends: with the failure of the size
or of the header as it is; with the failure of one chunk, and with all that was collected
before it; or with what the header and the chunks say, as many bytes as were reported and
no fewer than a header.  It sends at most one request for each byte behind the header. -/
theorem readDevice_accounted {σ : Type} (device lun chunk : UInt8) (t : Transport σ) (s : σ) :
    let r := (readDevice device lun chunk).run t s
    ∃ x rest, r.exchanges = x :: rest ∧
      x.request = (Command.getFruInventoryAreaInfo device lun).request ∧
      (∀ failure, x.Performs (.getFruInventoryAreaInfo device lun) (.error failure) →
        rest = [] ∧ r.result = .error failure) ∧
      ∀ extent, x.Performs (.getFruInventoryAreaInfo device lun) (.ok extent) →
        r.exchanges.length ≤ 2 + (extent.size.toNat - Header.size) ∧
        ∃ y reads, rest = y :: reads ∧
          y.request = (Command.readFruData (headerRead device lun)).request ∧
          (∀ z ∈ reads, ∃ read : FruRead, read.device = device ∧ read.lun = lun ∧
            z.request = (Command.readFruData read).request) ∧
          Accounted device lun extent.size y reads r.result := by
  intro r
  have hretrieved : Retrieved device lun chunk r.exchanges r.result :=
    retrieved_run device lun chunk t s
  obtain ⟨x, rest, hxs, hx, hunsized, hsized⟩ := hretrieved.accounted
  refine ⟨x, rest, hxs, hx, hunsized, fun extent hextent => ?_⟩
  obtain ⟨y, reads, hrest, hy, hreads, hlength, haccounted⟩ := hsized extent hextent
  refine ⟨?_, y, reads, hrest, hy, hreads, haccounted⟩
  rw [hxs, hrest, List.length_cons, List.length_cons]
  omega

/-- The replies of a controller that reports fifteen bytes and has four of them behind the
header. -/
def cutShort : List (Except Failure Response) :=
  [.ok ⟨0x00, [15, 0, 0]⟩,
    .ok ⟨0x00, [8, 0x01, 0x00, 0x00, 0x00, 0x00, 0x00, 0x00, 0xFF]⟩,
    .ok ⟨0x00, [4, 1, 2, 3, 4]⟩,
    .ok ⟨0x00, [0]⟩]

/-- The chunk that brings nothing ends the reading, and what came before it is told. -/
theorem readDevice_cutShort :
    let r := (readDevice 3 5 4).run Script.transport (.start cutShort [])
    r.exchanges.length ≤ 9 ∧
      r.result = .error (.fruRead 12 [0x01, 0, 0, 0, 0, 0, 0, 0xFF, 1, 2, 3, 4]
        (.fru (.emptyRead 12))) ∧
      ∃ front reads, BrokenOff front reads 12 [0x01, 0, 0, 0, 0, 0, 0, 0xFF, 1, 2, 3, 4]
        (.fru (.emptyRead 12)) := by
  intro r
  have hresult : r.result = .error (.fruRead 12 [0x01, 0, 0, 0, 0, 0, 0, 0xFF, 1, 2, 3, 4]
      (.fru (.emptyRead 12))) := by with_unfolding_all rfl
  have hreplies : r.exchanges.map (·.reply) = cutShort := by with_unfolding_all rfl
  obtain ⟨x, rest, hxs, hx, -, hsized⟩ :=
    readDevice_accounted 3 5 4 Script.transport (.start cutShort [])
  rw [show r.exchanges = x :: rest from hxs, List.map_cons] at hreplies
  obtain ⟨hreply, hreplies⟩ := List.cons.inj hreplies
  have hextent : x.Performs (.getFruInventoryAreaInfo 3 5) (.ok ⟨15, false⟩) :=
    ⟨hx, by rw [hreply]; rfl⟩
  obtain ⟨hlength, y, reads, rfl, -, -, haccounted⟩ := hsized ⟨15, false⟩ hextent
  rcases haccounted.of_broken _ _ _ hresult with hy | ⟨front, -, hbroken⟩
  · have hheader : y.reply = .ok ⟨0x00, [8, 0x01, 0, 0, 0, 0, 0, 0, 0xFF]⟩ :=
      (List.cons.inj hreplies).1
    have houtcome := hy.outcome_eq
    rw [hheader] at houtcome
    contradiction
  · exact ⟨hlength, hresult, front, reads, hbroken⟩

/-- The replies of a transport that reports, in the place of the header, a failure of the
kind that tells of a broken reading. -/
def headerBroken : List (Except Failure Response) :=
  [.ok ⟨0x00, [15, 0, 0]⟩, .error (.fruRead 0 [] .timeout)]

/-- That failure is passed on, so a reading can end with it though no chunk was asked for. -/
theorem readDevice_headerBroken :
    let r := (readDevice 3 5 4).run Script.transport (.start headerBroken [])
    r.exchanges.map (·.request) = [(Command.getFruInventoryAreaInfo 3 5).request,
        (Command.readFruData (headerRead 3 5)).request] ∧
      ¬((∃ offset collected source, r.result = .error (.fruRead offset collected source)) ↔
        ∃ z ∈ r.exchanges.drop 2, breach? z ≠ none) := by
  intro r
  have hrequests : r.exchanges.map (·.request) = [(Command.getFruInventoryAreaInfo 3 5).request,
      (Command.readFruData (headerRead 3 5)).request] := by with_unfolding_all rfl
  have hresult : r.result = .error (.fruRead 0 [] .timeout) := by with_unfolding_all rfl
  refine ⟨hrequests, fun hiff => ?_⟩
  obtain ⟨z, hz, -⟩ := hiff.mp ⟨0, [], .timeout, hresult⟩
  have hlength : r.exchanges.length = 2 := by simpa using congrArg List.length hrequests
  rw [List.drop_of_length_le (Nat.le_of_eq hlength)] at hz
  cases hz

end Baseboard.Fru
