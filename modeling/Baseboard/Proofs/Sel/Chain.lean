import Baseboard.Proofs.Sel.Turn
import Baseboard.Transport.Script

/-!
# Baseboard.Proofs.Sel.Chain

What a walk has done when it ends well.  The records that it returns are those of
a chain of visits: each visit fetched the record at its cursor to completion and
took what the first reply named as the cursor of the next visit.  No cursor comes
twice, and the chain ends where the log ends or where the limit is reached.

`Trail` is the invariant: what a walk has sent so far is the exchanges of its
visits, then those of a detour that has not come to a record yet.  Main statement:
`chain_of_finish_eq_ok`.
-/

namespace Baseboard.Sel

/-- A record that a walk accepted, and how the walk came by it. -/
structure Visit where
  cursor : RecordId
  /-- What was sent before the fetch that succeeded. -/
  detour : List Exchange
  reservation : Reservation
  /-- The fetch that succeeded. -/
  fetch : List Exchange
  next : RecordId
  data : List UInt8
  record : Record

/-- Exchanges that do not complete the record at a cursor: reservations, and
fetches that the controller cancelled. -/
inductive Detour (cursor : RecordId) : List Exchange → Prop where
  | nil : Detour cursor []
  | reserve {xs : List Exchange} {x : Exchange} {reservation : Reservation}
      (h : Detour cursor xs) (hx : x.Performs .reserveSel (.ok reservation)) :
      Detour cursor (xs ++ [x])
  | cancelled {xs ys : List Exchange} {reservation : Reservation} {failure : Failure}
      (h : Detour cursor xs) (hys : Fetched reservation cursor ys (.error failure))
      (hcancel : failure.isReservationCancelled = true) : Detour cursor (xs ++ ys)

namespace Visit

/-- The exchanges of a visit, in order. -/
def exchanges (v : Visit) : List Exchange := v.detour ++ v.fetch

/-- The record of a visit is what the bytes of its fetch say, and its `next` is
what the first reply of that fetch names. -/
structure Valid (v : Visit) : Prop where
  detour : Detour v.cursor v.detour
  fetch : Fetched v.reservation v.cursor v.fetch (.ok (v.next, v.data))
  record : Record.decode v.data = .ok v.record

/-- From the first identifier to the last, each visit starts where the one before
it pointed. -/
def Chain : RecordId → List Visit → RecordId → Prop
  | start, [], last => start = last
  | start, v :: vs, last => v.cursor = start ∧ Chain v.next vs last

theorem Chain.concat {v : Visit} {vs : List Visit} {start : RecordId}
    (h : Chain start vs v.cursor) : Chain start (vs ++ [v]) v.next := by
  induction vs generalizing start with
  | nil => exact ⟨h.symm, rfl⟩
  | cons u us ih => exact ⟨h.1, ih h.2⟩

end Visit

namespace Walk

variable {w w' : Walk} {xs ys : List Exchange}

/-- The walk that stops after as many records as given, if a number is given. -/
def limited (w : Walk) : Option Nat → Walk
  | none => w
  | some limit => w.withLimit limit

/-! ## What every turn keeps -/

/-- What holds of a fresh walk and of every walk that it becomes. -/
structure Sound (w : Walk) : Prop where
  done_eq : w.done = (w.cursor.isLast || w.reachesLimit w.records.length)
  /-- The walk asks for nothing that it has met. -/
  fresh : w.cursor ∈ w.visited → w.cursor = .last
  recoveries_le : w.recoveries ≤ w.maxRecoveries

@[simp] theorem cursor_limited (w : Walk) (limit : Option Nat) :
    (w.limited limit).cursor = w.cursor := by
  cases limit <;> rfl

@[simp] theorem records_limited (w : Walk) (limit : Option Nat) :
    (w.limited limit).records = w.records := by
  cases limit <;> rfl

@[simp] theorem maxRecoveries_limited (w : Walk) (limit : Option Nat) :
    (w.limited limit).maxRecoveries = w.maxRecoveries := by
  cases limit <;> rfl

@[simp] theorem limit_limited_start (start : RecordId) (maxRecoveries : Nat)
    (limit : Option Nat) : ((Walk.start start maxRecoveries).limited limit).limit = limit := by
  cases limit <;> rfl

theorem sound_start (start : RecordId) (maxRecoveries : Nat) (limit : Option Nat) :
    ((Walk.start start maxRecoveries).limited limit).Sound := by
  cases limit with
  | none => exact ⟨by simp [limited, Walk.start, reachesLimit], by simp [limited, Walk.start],
      Nat.zero_le _⟩
  | some n => exact ⟨by simp [limited, Walk.start, withLimit, reachesLimit],
      by simp [limited, Walk.start, withLimit], Nat.zero_le _⟩

/-- A walk that is not done does not ask for what ends the log. -/
theorem Sound.cursor_ne_last (h : w.Sound) (hdone : w.done = false) : w.cursor ≠ .last := by
  intro hlast
  rw [h.done_eq, hlast] at hdone
  simp [RecordId.isLast] at hdone

theorem Sound.cursor_notMem_visited (h : w.Sound) (hdone : w.done = false) :
    w.cursor ∉ w.visited :=
  fun hmem => h.cursor_ne_last hdone (h.fresh hmem)

/-- A walk that is not done has room for another record. -/
theorem Sound.length_lt (h : w.Sound) (hdone : w.done = false) {n : Nat}
    (hlimit : w.limit = some n) : w.records.length < n := by
  rw [h.done_eq, Bool.or_eq_false_iff] at hdone
  simpa [reachesLimit, hlimit] using hdone.2

/-- A walk that is done has come to the end of the log or to its limit. -/
theorem Sound.isLast_or_reachesLimit (h : w.Sound) (hdone : w.done = true) :
    w.cursor = .last ∨ ∃ n, w.limit = some n ∧ n ≤ w.records.length := by
  rw [h.done_eq, Bool.or_eq_true] at hdone
  rcases hdone with hlast | hlimit
  · left
    simpa [RecordId.isLast] using hlast
  · right
    cases hn : w.limit with
    | none => simp [reachesLimit, hn] at hlimit
    | some n => exact ⟨n, rfl, by simpa [reachesLimit, hn] using hlimit⟩

/-- A turn keeps a walk sound. -/
theorem Sound.turned (h : w.Sound) (hturn : Turned w xs (.ok w')) : w'.Sound := by
  cases hturn with
  | @accepted _ _ reservation next data record _ _ _ hfresh =>
      refine ⟨?_, ?_, Nat.zero_le _⟩
      · simp [Walk.accepted, moveOn, meet, Walk.reserved, reachesLimit]
        rfl
      · intro hmem
        by_cases hlast : next = .last
        · exact hlast
        · exact absurd ⟨hlast, hmem⟩ hfresh
  | lost _ _ _ hbudget => exact ⟨h.done_eq, h.fresh, hbudget⟩

/-- A turn changes neither the limit nor the number of recoveries allowed. -/
theorem Turned.limit_eq (hturn : Turned w xs (.ok w')) : w'.limit = w.limit := by
  cases hturn <;> rfl

theorem Turned.maxRecoveries_eq (hturn : Turned w xs (.ok w')) :
    w'.maxRecoveries = w.maxRecoveries := by
  cases hturn <;> rfl

theorem Walked.sound (h : w.Sound) (hwalked : Walked w xs w') : w'.Sound := by
  induction hwalked with
  | start => exact h
  | turn _ _ hturn ih => exact ih.turned hturn

theorem Walked.limit_eq (hwalked : Walked w xs w') : w'.limit = w.limit := by
  induction hwalked with
  | start => rfl
  | turn _ _ hturn ih => rw [hturn.limit_eq, ih]

theorem Walked.maxRecoveries_eq (hwalked : Walked w xs w') :
    w'.maxRecoveries = w.maxRecoveries := by
  induction hwalked with
  | start => rfl
  | turn _ _ hturn ih => rw [hturn.maxRecoveries_eq, ih]

/-! ## The visits of a walk -/

/-- What a walk from `start` that has sent `xs` has done: it made `visits`, and it
sent `detour` since. -/
structure Trail (start : RecordId) (xs : List Exchange) (w : Walk) (visits : List Visit)
    (detour : List Exchange) : Prop where
  exchanges_eq : xs = visits.flatMap Visit.exchanges ++ detour
  valid : ∀ v ∈ visits, v.Valid
  astray : Detour w.cursor detour
  /-- A walk is done only right after a record, or from the start. -/
  detour_eq_nil : w.done = true → detour = []
  chain : Visit.Chain start visits w.cursor
  records_eq : w.records = visits.map (·.record)
  nodup : (visits.map (·.cursor)).Nodup
  ne_last : ∀ v ∈ visits, v.cursor ≠ .last
  visited : ∀ v ∈ visits, v.cursor ∈ w.visited
  length_le : ∀ n, w.limit = some n → visits.length ≤ n

variable {start : RecordId} {visits : List Visit} {detour : List Exchange}

/-- The exchanges that reserve belong to a detour. -/
theorem Reserved.detour_append {reservation : Reservation} {cursor : RecordId}
    (h : Reserved w xs reservation) (hdetour : Detour cursor detour) :
    Detour cursor (detour ++ xs) := by
  cases h with
  | held => rwa [List.append_nil]
  | made _ hx => exact hdetour.reserve hx

/-- A lost reservation prolongs the detour. -/
theorem Trail.lost {ls : List Exchange} {reservation : Reservation} {failure : Failure}
    (h : Trail start xs w visits detour) (hdone : w.done = false)
    (hls : Reserved w ls reservation) (hys : Fetched reservation w.cursor ys (.error failure))
    (hcancel : failure.isReservationCancelled = true) :
    Trail start (xs ++ (ls ++ ys)) w.lost visits (detour ++ (ls ++ ys)) where
  exchanges_eq := by rw [h.exchanges_eq, List.append_assoc]
  valid := h.valid
  astray := by
    rw [← List.append_assoc]
    exact (hls.detour_append h.astray).cancelled hys hcancel
  detour_eq_nil hdone' := by
    have hfalse : w.done = true := hdone'
    rw [hdone] at hfalse
    contradiction
  chain := h.chain
  records_eq := h.records_eq
  nodup := h.nodup
  ne_last := h.ne_last
  visited := h.visited
  length_le := h.length_le

/-- An accepted record ends the detour with a visit. -/
theorem Trail.accepted {ls : List Exchange} {reservation : Reservation} {next : RecordId}
    {data : List UInt8} {record : Record} (h : Trail start xs w visits detour) (hsound : w.Sound)
    (hdone : w.done = false) (hls : Reserved w ls reservation)
    (hys : Fetched reservation w.cursor ys (.ok (next, data)))
    (hrecord : Record.decode data = .ok record) :
    Trail start (xs ++ (ls ++ ys)) (w.accepted reservation record next)
      (visits ++ [⟨w.cursor, detour ++ ls, reservation, ys, next, data, record⟩]) [] where
  exchanges_eq := by
    rw [h.exchanges_eq, List.flatMap_append]
    simp [Visit.exchanges]
  valid v hv := by
    rcases List.mem_append.mp hv with hv | hv
    · exact h.valid v hv
    · rw [List.mem_singleton.mp hv]
      exact ⟨hls.detour_append h.astray, hys, hrecord⟩
  astray := .nil
  detour_eq_nil _ := rfl
  chain := Visit.Chain.concat
    (v := ⟨w.cursor, detour ++ ls, reservation, ys, next, data, record⟩) h.chain
  records_eq := by
    rw [List.map_append, ← h.records_eq]
    rfl
  nodup := by
    have hcursor : w.cursor ∉ visits.map (·.cursor) := by
      intro hmem
      obtain ⟨v, hv, heq⟩ := List.mem_map.mp hmem
      exact hsound.cursor_notMem_visited hdone (heq ▸ h.visited v hv)
    rw [List.map_append, List.nodup_append]
    refine ⟨h.nodup, by simp, ?_⟩
    intro c hc d hd heq
    have hd' : d = w.cursor := List.mem_singleton.mp hd
    rw [heq, hd'] at hc
    exact hcursor hc
  ne_last v hv := by
    rcases List.mem_append.mp hv with hv | hv
    · exact h.ne_last v hv
    · rw [List.mem_singleton.mp hv]
      exact hsound.cursor_ne_last hdone
  visited v hv := by
    rcases List.mem_append.mp hv with hv | hv
    · exact List.mem_cons_of_mem _ (List.mem_cons_of_mem _ (h.visited v hv))
    · rw [List.mem_singleton.mp hv]
      exact List.mem_cons_of_mem _ List.mem_cons_self
  length_le n hn := by
    have hlt := hsound.length_lt hdone hn
    rw [h.records_eq, List.length_map] at hlt
    rw [List.length_append, List.length_singleton]
    exact hlt

/-- Whatever a walk has sent, it made visits and then a detour. -/
theorem Walked.exists_trail (hsound : w.Sound) (hrecords : w.records = [])
    (hwalked : Walked w xs w') : ∃ visits detour, Trail w.cursor xs w' visits detour := by
  induction hwalked with
  | start =>
      refine ⟨[], [], ?_⟩
      exact ⟨rfl, by simp, .nil, fun _ => rfl, rfl, hrecords, by simp, by simp, by simp,
        by simp⟩
  | turn hwalked hdone hturn ih =>
      obtain ⟨visits, detour, htrail⟩ := ih
      cases hturn with
      | accepted hls hys hrecord _ =>
          exact ⟨_, _, htrail.accepted (hwalked.sound hsound) hdone hls hys hrecord⟩
      | lost hls hys hcancel _ => exact ⟨_, _, htrail.lost hdone hls hys hcancel⟩

/-! ## Walks that end well -/

/-- An account of a walk that ended well: it made `visits`, one after the other from
`start` to `last`, and returned `records` after sending `xs`. -/
structure Account (start : RecordId) (limit : Option Nat) (records : List Record)
    (xs : List Exchange) (visits : List Visit) (last : RecordId) : Prop where
  records_eq : records = visits.map (·.record)
  valid : ∀ v ∈ visits, v.Valid
  chain : Visit.Chain start visits last
  /-- The log or the limit ended the walk. -/
  ended : last = .last ∨ limit = some visits.length
  length_le : ∀ n, limit = some n → visits.length ≤ n
  nodup : (visits.map (·.cursor)).Nodup
  ne_last : ∀ v ∈ visits, v.cursor ≠ .last
  eq_nil_iff : visits = [] ↔ start = .last ∨ limit = some 0
  /-- Nothing else is sent, and nothing after the last visit. -/
  exchanges_eq : xs = visits.flatMap Visit.exchanges

/-- A walk that is done has sent the exchanges of its visits and nothing else. -/
theorem Trail.exchanges_eq_of_done (h : Trail start xs w visits detour) (hdone : w.done = true) :
    xs = visits.flatMap Visit.exchanges := by
  have hexchanges := h.exchanges_eq
  rwa [h.detour_eq_nil hdone, List.append_nil] at hexchanges

/-- A trail that is done accounts for the walk. -/
theorem Trail.account {limit : Option Nat} (h : Trail start xs w visits detour)
    (hsound : w.Sound) (hlimit : w.limit = limit) (hdone : w.done = true) :
    Account start limit w.records xs visits w.cursor := by
  have hlength : ∀ n, limit = some n → visits.length ≤ n := hlimit ▸ h.length_le
  have hended : w.cursor = .last ∨ limit = some visits.length := by
    rcases hsound.isLast_or_reachesLimit hdone with hlast | ⟨n, hn, hle⟩
    · exact .inl hlast
    · rw [h.records_eq, List.length_map] at hle
      rw [hlimit] at hn
      have heq : n = visits.length := Nat.le_antisymm hle (hlength n hn)
      exact .inr (heq ▸ hn)
  refine ⟨h.records_eq, h.valid, h.chain, hended, hlength, h.nodup, h.ne_last, ?_,
    h.exchanges_eq_of_done hdone⟩
  have hchain := h.chain
  constructor
  · rintro rfl
    rwa [← show start = w.cursor from hchain] at hended
  · intro hstart
    cases visits with
    | nil => rfl
    | cons v vs =>
        rcases hstart with hstart | hzero
        · exact absurd (hchain.1.trans hstart) (h.ne_last v List.mem_cons_self)
        · exact absurd (hlength 0 hzero) (by simp)

/-- A walk that ends well returns the records of a chain of visits, from where it
started to the end of the log or to its limit, and sends nothing else. -/
theorem chain_of_finish_eq_ok {σ : Type} {t : Transport σ} {s : σ} {start : RecordId}
    {maxRecoveries : Nat} {limit : Option Nat} {records : List Record}
    (h : (((Walk.start start maxRecoveries).limited limit).finish.run t s).result = .ok records) :
    ∃ visits last, Account start limit records
      (((Walk.start start maxRecoveries).limited limit).finish.run t s).exchanges visits last := by
  have hsound := sound_start start maxRecoveries limit
  have hfinished := finished_run ((Walk.start start maxRecoveries).limited limit) t s
  rw [h] at hfinished
  obtain ⟨w', hwalked, hdone, rfl⟩ := hfinished.exists_walked
  obtain ⟨visits, detour, htrail⟩ := hwalked.exists_trail hsound (records_limited _ _)
  rw [cursor_limited] at htrail
  have hlimit : w'.limit = limit := by
    rw [hwalked.limit_eq, limit_limited_start]
  exact ⟨visits, w'.cursor, htrail.account (hwalked.sound hsound) hlimit hdone⟩

/-! ## A walk over two records -/

/-- The replies of a controller that cancels the reservation between two reads of
its second record. -/
def cancelledOnce : List (Except Failure Response) :=
  [.ok ⟨0x00, [1, 0]⟩,
    .ok ⟨0x00, 2 :: 0 :: 1 :: 0 :: 0xE0 :: List.replicate 13 0⟩,
    .ok ⟨0x00, [0xFF, 0xFF, 2, 0, 0xE0]⟩,
    .ok ⟨0xC5, []⟩,
    .ok ⟨0x00, [2, 0]⟩,
    .ok ⟨0x00, [0xFF, 0xFF, 2, 0, 0xE0]⟩,
    .ok ⟨0x00, 0xFF :: 0xFF :: List.replicate 13 7⟩]

/-- What such a controller is asked for. -/
def askedFor : List Command :=
  [.reserveSel,
    .getSelEntry (.whole ⟨1⟩ .first),
    .getSelEntry (.whole ⟨1⟩ ⟨2⟩),
    .getSelEntry (missingRead ⟨1⟩ ⟨2⟩ [2, 0, 0xE0]),
    .reserveSel,
    .getSelEntry (.whole ⟨2⟩ ⟨2⟩),
    .getSelEntry (missingRead ⟨2⟩ ⟨2⟩ [2, 0, 0xE0])]

def firstRecord : Record := .plainOem ⟨⟨1⟩, 0xE0, List.replicate 13 0⟩

def secondRecord : Record := .plainOem ⟨⟨2⟩, 0xE0, List.replicate 13 7⟩

/-- The walk takes three turns, and loses its reservation in the second. -/
theorem run_cancelledOnce :
    let r := (Walk.start .first 1).finish.run Script.transport (.start cancelledOnce [])
    r.result = .ok [firstRecord, secondRecord] ∧
      r.exchanges = (askedFor.map (·.request)).zipWith Exchange.mk cancelledOnce := by
  intro r
  have hrun : r = (Walk.start .first 1).finish.run Script.transport (.start cancelledOnce []) :=
    rfl
  rw [@run_finish_of_turn _ _
      ⟨⟨2⟩, [⟨1⟩, ⟨0⟩], some ⟨1⟩, 0, 1, none, [firstRecord], false⟩ _ _ rfl
      (by with_unfolding_all rfl),
    @run_finish_of_turn _ _
      ⟨⟨2⟩, [⟨1⟩, ⟨0⟩], none, 1, 1, none, [firstRecord], false⟩ _ _ rfl
      (by with_unfolding_all rfl),
    @run_finish_of_turn _ _
      ⟨.last, [⟨2⟩, ⟨2⟩, ⟨1⟩, ⟨0⟩], some ⟨2⟩, 0, 1, none,
        [firstRecord, secondRecord], true⟩ _ _ rfl
      (by with_unfolding_all rfl),
    finish_eq, if_pos rfl] at hrun
  rw [hrun]
  constructor
  · rfl
  · with_unfolding_all rfl

/-- The walk accounts for both records. -/
theorem chain_cancelledOnce :
    let r := (Walk.start .first 1).finish.run Script.transport (.start cancelledOnce [])
    r.result = .ok [firstRecord, secondRecord] ∧
      ∃ visits last, Account .first none [firstRecord, secondRecord] r.exchanges visits last :=
  ⟨run_cancelledOnce.1, @chain_of_finish_eq_ok _ _ _ _ _ none _ run_cancelledOnce.1⟩

end Walk

end Baseboard.Sel
