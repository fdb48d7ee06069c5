import Baseboard.Proofs.Sel.Chain
import Baseboard.Proofs.Sel.Ending
import Baseboard.Proofs.Sel.Order

/-!
# Baseboard.Proofs.Sel.Discipline

Under which reservation a walk reads, whatever the controller replies.

Every read carries the reservation that was granted last.  A walk reserves the log at
its start and after a loss that it may recover from, and at no other time; then it asks
for the record that it lost, from the first byte on.  So no record is made of bytes that
were read under two reservations.

`Timely` says of one exchange that it may come after the exchanges before it, and
`Poised` is the invariant between two turns that makes the next ones timely.  Main
statement: `disciplined_finish`.
-/

namespace Baseboard.Sel

/-! ## Losses -/

/-- How many reservations were lost since the last record was complete. -/
def losses (xs : List Exchange) : Nat :=
  (xs.reverse.takeWhile fun x => !completes x).countP loses

theorem losses_concat (xs : List Exchange) (x : Exchange) :
    losses (xs ++ [x]) =
      if completes x then 0 else losses xs + if loses x then 1 else 0 := by
  rw [losses, List.reverse_concat, List.takeWhile_cons]
  cases completes x with
  | true => rfl
  | false => exact List.countP_cons

theorem losses_append_of_uneventful {xs ys : List Exchange}
    (h : ∀ y ∈ ys, completes y = false ∧ loses y = false) :
    losses (xs ++ ys) = losses xs := by
  induction ys generalizing xs with
  | nil => rw [List.append_nil]
  | cons y ys ih =>
      obtain ⟨hcompletes, hloses⟩ := h y List.mem_cons_self
      rw [List.append_cons, ih fun z hz => h z (List.mem_cons_of_mem y hz), losses_concat,
        hcompletes, hloses]
      rfl

/-- The end of a fetch settles the losses. -/
theorem Ends.losses_append {α : Type} {ys : List Exchange} {result : Except Failure α}
    (h : Ends ys result) (xs : List Exchange) :
    losses (xs ++ ys) =
      if result.isOk then 0 else losses xs + if tellsOfLoss result then 1 else 0 := by
  obtain ⟨front, last, rfl, hfront, hcompletes, hloses⟩ := h
  rw [← List.append_assoc, losses_concat, losses_append_of_uneventful hfront, hcompletes, hloses]

/-! ## Reads and reservations -/

theorem isRead_of_loses {x : Exchange} (h : loses x = true) : isRead x = true := by
  rw [loses, Bool.and_eq_true] at h
  exact h.1

/-- A read asks for no reservation. -/
theorem isReserve_of_isRead {x : Exchange} (h : isRead x = true) : isReserve x = false := by
  refine decide_eq_false fun hrequest => ?_
  rw [isRead, hrequest, EntryRead.ofRequest?_reserveSel] at h
  contradiction

/-- Reads leave the reservation in force. -/
theorem inForce_append_reads {xs ys : List Exchange} (h : ∀ y ∈ ys, isRead y = true) :
    inForce (xs ++ ys) = inForce xs := by
  have hnone : ys.filter isReserve = [] :=
    List.filter_eq_nil_iff.mpr fun y hy => by simp [isReserve_of_isRead (h y hy)]
  rw [inForce, List.filter_append, hnone, List.append_nil, inForce]

/-- The bytes of a record that a read brings; more than it asked for are ignored. -/
def brought (x : Exchange) : List UInt8 :=
  match EntryRead.ofRequest? x.request, x.reply with
  | some read, .ok ⟨0x00, _ :: _ :: part⟩ => part.take read.count.toNat
  | _, _ => []

theorem brought_of_performs {x : Exchange} {read : EntryRead} {entry : Entry}
    (hx : x.Performs (.getSelEntry read) (.ok entry)) : brought x = entry.data := by
  obtain ⟨lo, hi, part, hreply, rfl⟩ := exists_reply_of_performs hx
  simp only [brought, ofRequest?_of_performs hx, hreply]

theorem Completion.eq_append_brought {reservation : Reservation} {id : RecordId}
    {data whole : List UInt8} {xs : List Exchange}
    (h : Completion reservation id data xs (.ok whole)) : whole = data ++ xs.flatMap brought := by
  generalize hresult : (Except.ok whole : Except Failure (List UInt8)) = result at h
  induction h with
  | complete =>
      cases hresult
      rw [List.flatMap_nil, List.append_nil]
  | failed => cases hresult
  | stuck => cases hresult
  | more _ hx _ _ ih =>
      rw [ih hresult, List.flatMap_cons, brought_of_performs hx, List.append_assoc]

/-- The bytes of a fetched record are those that its reads brought. -/
theorem Fetched.eq_brought {reservation : Reservation} {id next : RecordId} {data : List UInt8}
    {xs : List Exchange} (h : Fetched reservation id xs (.ok (next, data))) :
    data = xs.flatMap brought := by
  generalize hresult : (Except.ok (next, data) : Except Failure _) = result at h
  cases h with
  | failed => cases hresult
  | @read _ _ _ completed hx rest =>
      cases completed with
      | error failure => cases hresult
      | ok whole =>
          cases hresult
          rw [List.flatMap_cons, brought_of_performs hx]
          exact rest.eq_append_brought

/-! ## Discipline -/

/-- Whether an exchange of a walk that may recover from so many losses in a row may come
after those before it. -/
structure Timely (maxRecoveries : Nat) (before : List Exchange) (x : Exchange) : Prop where
  /-- A read is made under the reservation in force. -/
  token : ∀ read, EntryRead.ofRequest? x.request = some read →
    inForce before = some read.reservation
  /-- The log is reserved at the start, or after a loss that the walk may recover from. -/
  reserve : isReserve x = true → before = [] ∨ ∃ front y, before = front ++ [y] ∧
    loses y = true ∧ losses before ≤ maxRecoveries
  /-- A reservation that is lost is asked for again. -/
  renew : ∀ front y, before = front ++ [y] → loses y = true → isReserve x = true
  /-- Once it is had, the record that was lost is asked for as a whole. -/
  restart : ∀ front y z reservation, before = front ++ [y] ++ [z] → loses y = true →
    isReserve z = true → granted? z.reply = some reservation → ∃ id, recordOf? y = some id ∧
      x.request = (Command.getSelEntry (.whole reservation id)).request

/-- How a record came about, after the exchanges before its visit. -/
structure Visit.Untorn (v : Visit) (before : List Exchange) : Prop where
  /-- It was asked for as a whole first. -/
  whole : ∃ x rest, v.fetch = x :: rest ∧
    x.request = (Command.getSelEntry (.whole v.reservation v.cursor)).request
  /-- Every read was for the same record, under the same reservation. -/
  read : ∀ x ∈ v.fetch, ∃ read, EntryRead.ofRequest? x.request = some read ∧
    read.record = v.cursor ∧ read.reservation = v.reservation
  /-- That was the reservation in force. -/
  inForce_eq : inForce (before ++ v.detour) = some v.reservation
  /-- The record is what these reads brought, and nothing else. -/
  record_eq : Record.decode (v.fetch.flatMap brought) = .ok v.record

/-- After an exchange that lost the reservation the log is reserved, and if it can be had,
the record that was lost is asked for as a whole under the new reservation. -/
def Resumes (y : Exchange) (after : List Exchange) : Prop :=
  ∃ z rest, after = z :: rest ∧ z.request = Command.reserveSel.request ∧
    ∀ reservation, granted? z.reply = some reservation → ∃ x rest' id, rest = x :: rest' ∧
      recordOf? y = some id ∧ x.request = (Command.getSelEntry (.whole reservation id)).request

/-- The exchanges of a walk that may recover from so many losses in a row, and its
result. -/
structure Disciplined (maxRecoveries : Nat) (xs : List Exchange)
    (result : Except Failure (List Record)) : Prop where
  /-- Every read carries the token of the most recent reservation. -/
  token_inForce : Throughout (fun before x => ∀ read,
    EntryRead.ofRequest? x.request = some read → inForce before = some read.reservation) xs
  /-- The log is reserved only at the start and after a loss within the budget. -/
  reserved_after : Throughout (fun before x => isReserve x = true → before = [] ∨
    ∃ front y, before = front ++ [y] ∧ loses y = true ∧ losses before ≤ maxRecoveries) xs
  /-- After such a loss the log is reserved next, and the record that was lost is asked for
  again. -/
  restarted : ∀ before y after, xs = before ++ y :: after → loses y = true →
    losses (before ++ [y]) ≤ maxRecoveries → Resumes y after
  /-- Each record returned was read in one piece. -/
  untorn : ∀ records, result = .ok records → ∃ visits : List Visit,
    records = visits.map (·.record) ∧ xs = visits.flatMap Visit.exchanges ∧
      ∀ before v after, visits = before ++ v :: after →
        v.Untorn (before.flatMap Visit.exchanges)

/-! ## Timely exchanges -/

section

variable {maxRecoveries : Nat} {xs ys : List Exchange} {x y : Exchange}
variable {reservation : Reservation} {id : RecordId}

/-- After a read that kept its reservation another read is timely. -/
theorem timely_read {read : EntryRead} (hy : isRead y = true) (hloses : loses y = false)
    (hforce : inForce (xs ++ [y]) = some reservation)
    (hx : EntryRead.ofRequest? x.request = some read) (hread : read.reservation = reservation) :
    Timely maxRecoveries (xs ++ [y]) x where
  token read' hread' := by
    rw [hx] at hread'
    rw [← Option.some.inj hread', hread, hforce]
  reserve hreserve := by
    rw [isReserve_of_isRead (by rw [isRead, hx, Option.isSome_some])] at hreserve
    contradiction
  renew front z hxs hz := by
    obtain ⟨-, rfl⟩ := List.append_singleton_inj.mp hxs
    rw [hloses] at hz
    contradiction
  restart front u z _ hxs _ hz := by
    obtain ⟨-, rfl⟩ := List.append_singleton_inj.mp hxs
    rw [isReserve_of_isRead hy] at hz
    contradiction

/-- Reads under the reservation in force are timely when the first of them is, as long as
the reservation is not lost. -/
theorem throughout_timely_reads (h : Throughout (Timely maxRecoveries) xs)
    (hforce : inForce xs = some reservation)
    (hfirst : ∀ y ∈ ys.head?, Timely maxRecoveries xs y)
    (hreads : ∀ y ∈ ys, ∃ read, EntryRead.ofRequest? y.request = some read ∧
      read.reservation = reservation ∧ read.record = id)
    (hkept : ∀ y ∈ ys.dropLast, loses y = false) :
    Throughout (Timely maxRecoveries) (xs ++ ys) := by
  induction ys generalizing xs with
  | nil => rwa [List.append_nil]
  | cons y ys ih =>
      obtain ⟨read, hread, -⟩ := hreads y List.mem_cons_self
      have hy : isRead y = true := by rw [isRead, hread, Option.isSome_some]
      have hforce' : inForce (xs ++ [y]) = some reservation := by
        rw [inForce_append_reads (by simpa using hy), hforce]
      rw [List.append_cons]
      refine ih (throughout_concat.mpr ⟨h, hfirst y rfl⟩) hforce' (fun z hz => ?_)
        (fun z hz => hreads z (List.mem_cons_of_mem y hz)) (fun z hz => ?_)
      · obtain ⟨zs, rfl⟩ := List.head?_eq_some_iff.mp hz
        obtain ⟨read', hread', hreservation, -⟩ := hreads z (by simp)
        exact timely_read hy (hkept y (by simp)) hforce' hread' hreservation
      · cases ys with
        | nil => contradiction
        | cons u us => exact hkept z (List.mem_cons_of_mem y hz)

/-- A visit among timely exchanges brings its record in one piece. -/
theorem Visit.Valid.untorn {before after : List Exchange} {v : Visit} (hvalid : v.Valid)
    (h : Throughout (Timely maxRecoveries) (before ++ v.exchanges ++ after)) :
    v.Untorn before := by
  obtain ⟨x, rest, hfetch, hwhole, -⟩ := hvalid.fetch.exists_cons
  refine ⟨⟨x, rest, hfetch, hwhole⟩, fun y hy => ?_, ?_, ?_⟩
  · obtain ⟨read, hread, hreservation, hrecord⟩ := hvalid.fetch.exists_read y hy
    exact ⟨read, hread, hrecord, hreservation⟩
  · have hx := h (before ++ v.detour) x (by simp [Visit.exchanges, hfetch])
    exact hx.token _ (by rw [hwhole, EntryRead.ofRequest?_request])
  · rw [← hvalid.fetch.eq_brought]
    exact hvalid.record

end

namespace Walk

variable {w w' : Walk} {xs ys ls : List Exchange} {reservation : Reservation}

/-! ## Between two turns -/

/-- A walk that is to take another turn, after these exchanges. -/
structure Poised (xs : List Exchange) (w : Walk) : Prop where
  timely : Throughout (Timely w.maxRecoveries) xs
  losses_eq : losses xs = w.recoveries
  /-- The walk kept its reservation in the last read. -/
  held : ∀ reservation, w.reservation = some reservation → inForce xs = some reservation ∧
    ∃ front y, xs = front ++ [y] ∧ isRead y = true ∧ loses y = false
  /-- The walk has not started, or it lost its reservation in the last read. -/
  unheld : w.reservation = none → xs = [] ∨ w.done = false ∧
    ∃ front y, xs = front ++ [y] ∧ loses y = true ∧ recordOf? y = some w.cursor

theorem poised_start (start : RecordId) (maxRecoveries : Nat) (limit : Option Nat) :
    Poised [] ((Walk.start start maxRecoveries).limited limit) where
  timely := throughout_nil _
  losses_eq := by cases limit <;> rfl
  held _ h := by cases limit <;> contradiction
  unheld _ := .inl rfl

/-- The last read of a walk that holds no reservation lost it. -/
theorem Poised.loses_of_unheld {front : List Exchange} {y : Exchange} (h : Poised xs w)
    (hreservation : w.reservation = none) (hxs : xs = front ++ [y]) :
    loses y = true ∧ recordOf? y = some w.cursor := by
  rcases h.unheld hreservation with hnil | ⟨-, front', y', hxs', hloses, hrecord⟩
  · simp [hnil] at hxs
  · obtain ⟨-, rfl⟩ := List.append_singleton_inj.mp (hxs.symm.trans hxs')
    exact ⟨hloses, hrecord⟩

/-- A walk reserves the log when it is time to. -/
theorem Poised.timely_reserve {x : Exchange} (h : Poised xs w) (hsound : w.Sound)
    (hreservation : w.reservation = none) (hx : x.request = Command.reserveSel.request) :
    Timely w.maxRecoveries xs x where
  token read hread := by
    rw [hx, EntryRead.ofRequest?_reserveSel] at hread
    contradiction
  reserve _ := by
    refine (h.unheld hreservation).imp_right fun ⟨_, front, y, hxs, hy, _⟩ => ?_
    exact ⟨front, y, hxs, hy, h.losses_eq ▸ hsound.recoveries_le⟩
  renew _ _ _ _ := decide_eq_true hx
  restart front y z _ hxs _ hz := by
    rw [isReserve_of_isRead (isRead_of_loses (h.loses_of_unheld hreservation hxs).1)] at hz
    contradiction

/-! ## Turns -/

/-- With the log reserved again, it is time for the record at the cursor. -/
theorem Poised.timely_whole {x z : Exchange} (h : Poised xs w)
    (hreservation : w.reservation = none) (hz : z.Performs .reserveSel (.ok reservation))
    (hx : x.request = (Command.getSelEntry (.whole reservation w.cursor)).request) :
    Timely w.maxRecoveries (xs ++ [z]) x := by
  have hread : EntryRead.ofRequest? x.request = some (.whole reservation w.cursor) := by
    rw [hx, EntryRead.ofRequest?_request]
  obtain ⟨-, -, hkept⟩ := uneventful_of_reserves hz
  refine ⟨fun read hread' => ?_, fun hreserve => ?_, fun front y hxs hy => ?_,
    fun front y z' granted hxs _ _ hgranted => ?_⟩
  · rw [hread] at hread'
    rw [inForce_concat_reserve xs hz, ← Option.some.inj hread']
    rfl
  · rw [isReserve_of_isRead (by rw [isRead, hread, Option.isSome_some])] at hreserve
    contradiction
  · obtain ⟨-, rfl⟩ := List.append_singleton_inj.mp hxs
    rw [hkept] at hy
    contradiction
  · obtain ⟨hlost, rfl⟩ := List.append_singleton_inj.mp hxs
    rw [granted?_of_performs hz] at hgranted
    cases hgranted
    exact ⟨w.cursor, (h.loses_of_unheld hreservation hlost).2, hx⟩

/-- The log is reserved, and it is time for a record. -/
structure Ready (maxRecoveries : Nat) (xs : List Exchange) (reservation : Reservation)
    (id : RecordId) : Prop where
  timely : Throughout (Timely maxRecoveries) xs
  inForce_eq : inForce xs = some reservation
  whole : ∀ x, x.request = (Command.getSelEntry (.whole reservation id)).request →
    Timely maxRecoveries xs x

/-- A walk that came by a reservation is ready for the record at its cursor. -/
theorem Poised.ready (h : Poised xs w) (hsound : w.Sound) (hls : Reserved w ls reservation) :
    Ready w.maxRecoveries (xs ++ ls) reservation w.cursor := by
  cases hls with
  | held hreservation =>
      obtain ⟨hforce, front, y, rfl, hread, hloses⟩ := h.held _ hreservation
      rw [List.append_nil]
      refine ⟨h.timely, hforce, fun x hx => ?_⟩
      exact timely_read hread hloses hforce (by rw [hx, EntryRead.ofRequest?_request]) rfl
  | made hreservation hz =>
      have hreserve := h.timely_reserve hsound hreservation hz.request_eq
      exact ⟨throughout_concat.mpr ⟨h.timely, hreserve⟩, inForce_concat_reserve xs hz,
        fun x hx => h.timely_whole hreservation hz hx⟩

theorem Reserved.losses_append (hls : Reserved w ls reservation) (xs : List Exchange) :
    losses (xs ++ ls) = losses xs := by
  cases hls with
  | held => rw [List.append_nil]
  | made _ hx =>
      obtain ⟨-, hcompletes, hloses⟩ := uneventful_of_reserves hx
      exact losses_append_of_uneventful (by simp [hcompletes, hloses])

/-- What a fetch leaves behind: its reads were timely, and the last of them tells how it
ended. -/
theorem Ready.fetched {maxRecoveries : Nat} {id : RecordId}
    {result : Except Failure (RecordId × List UInt8)}
    (h : Ready maxRecoveries xs reservation id) (hys : Fetched reservation id ys result) :
    Throughout (Timely maxRecoveries) (xs ++ ys) ∧ inForce (xs ++ ys) = some reservation ∧
      ∃ front y, xs ++ ys = front ++ [y] ∧ isRead y = true ∧ loses y = tellsOfLoss result ∧
        recordOf? y = some id := by
  refine ⟨?_, by rw [inForce_append_reads hys.isRead, h.inForce_eq], ?_⟩
  · refine throughout_timely_reads h.timely h.inForce_eq ?_ hys.exists_read ?_
    · obtain ⟨x, rest, rfl, hwhole, -⟩ := hys.exists_cons
      rintro y ⟨⟩
      exact h.whole x hwhole
    · obtain ⟨front, last, rfl, hfront, -⟩ := hys.ends
      rw [List.dropLast_concat]
      exact fun y hy => (hfront y hy).2
  · have hread := hys.isRead
    have hrecord := hys.recordOf?_eq
    obtain ⟨front, last, rfl, -, -, hloses⟩ := hys.ends
    exact ⟨xs ++ front, last, (List.append_assoc xs front [last]).symm, hread last (by simp),
      hloses, hrecord last (by simp)⟩

/-- A turn that goes on leaves the walk poised for the next one. -/
theorem Poised.turned (h : Poised xs w) (hsound : w.Sound) (hdone : w.done = false)
    (hturn : Turned w ys (.ok w')) : Poised (xs ++ ys) w' := by
  cases hturn with
  | @accepted ls zs reservation next data record hls hzs _ _ =>
      obtain ⟨htimely, hforce, front, y, hxs, hread, hloses, -⟩ :=
        (h.ready hsound hls).fetched hzs
      have hlosses := hzs.ends.losses_append (xs ++ ls)
      rw [List.append_assoc] at htimely hforce hxs hlosses
      refine ⟨htimely, hlosses, fun held hheld => ?_, fun hnone => by contradiction⟩
      cases hheld
      exact ⟨hforce, front, y, hxs, hread, hloses⟩
  | @lost ls zs reservation failure hls hzs hcancel _ =>
      obtain ⟨htimely, -, front, y, hxs, -, hloses, hrecord⟩ := (h.ready hsound hls).fetched hzs
      have hlosses := hzs.ends.losses_append (xs ++ ls)
      rw [hls.losses_append, h.losses_eq] at hlosses
      rw [List.append_assoc] at htimely hxs hlosses
      have htells : tellsOfLoss (.error failure : Except Failure (RecordId × List UInt8)) = true :=
        hcancel
      refine ⟨htimely, ?_, fun held hheld => by contradiction, fun _ => .inr ⟨hdone, ?_⟩⟩
      · rw [hlosses, htells]
        rfl
      · exact ⟨front, y, hxs, hloses.trans htells, hrecord⟩

theorem Walked.poised (hsound : w.Sound) (h : Poised [] w) (hwalked : Walked w xs w') :
    Poised xs w' := by
  induction hwalked with
  | start => exact h
  | turn hwalked hdone hturn ih => exact ih.turned (hwalked.sound hsound) hdone hturn

/-! ## The end of a walk -/

/-- Exchanges after which a walk sends nothing more. -/
structure Concluded (maxRecoveries : Nat) (xs : List Exchange) : Prop where
  timely : Throughout (Timely maxRecoveries) xs
  /-- A lost reservation is the end only if it was lost once too often. -/
  spent : ∀ front y, xs = front ++ [y] → loses y = true → maxRecoveries < losses xs
  /-- A reservation is the end only if it was not granted. -/
  refused : ∀ front z, xs = front ++ [z] → isReserve z = true → granted? z.reply = none

/-- A walk may end after a read that kept its reservation. -/
theorem concluded_of_kept {maxRecoveries : Nat} (h : Throughout (Timely maxRecoveries) xs)
    (hkept : ∀ front y, xs = front ++ [y] → isRead y = true ∧ loses y = false) :
    Concluded maxRecoveries xs where
  timely := h
  spent front y hxs hy := by
    rw [(hkept front y hxs).2] at hy
    contradiction
  refused front z hxs hz := by
    rw [isReserve_of_isRead (hkept front z hxs).1] at hz
    contradiction

/-- A walk may end after a fetch, unless that lost a reservation that may be had again. -/
theorem Ready.concluded {maxRecoveries : Nat} {id : RecordId}
    {result : Except Failure (RecordId × List UInt8)}
    (h : Ready maxRecoveries xs reservation id) (hys : Fetched reservation id ys result)
    (hspent : tellsOfLoss result = true → maxRecoveries < losses (xs ++ ys)) :
    Concluded maxRecoveries (xs ++ ys) := by
  obtain ⟨htimely, -, front, y, hxs, hread, hloses, -⟩ := h.fetched hys
  cases htells : tellsOfLoss result with
  | false =>
      refine concluded_of_kept htimely fun front' y' hxs' => ?_
      obtain ⟨-, rfl⟩ := List.append_singleton_inj.mp (hxs.symm.trans hxs')
      exact ⟨hread, hloses.trans htells⟩
  | true =>
      refine ⟨htimely, fun _ _ _ _ => hspent htells, fun front' z hxs' hz => ?_⟩
      obtain ⟨-, rfl⟩ := List.append_singleton_inj.mp (hxs.symm.trans hxs')
      rw [isReserve_of_isRead hread] at hz
      contradiction

theorem Poised.concluded_of_done (h : Poised xs w) (hdone : w.done = true) :
    Concluded w.maxRecoveries xs := by
  refine concluded_of_kept h.timely fun front y hxs => ?_
  cases hreservation : w.reservation with
  | none =>
      rcases h.unheld hreservation with hnil | ⟨hfalse, -⟩
      · simp [hnil] at hxs
      · rw [hdone] at hfalse
        contradiction
  | some reservation =>
      obtain ⟨-, front', y', hxs', hread, hloses⟩ := h.held reservation hreservation
      obtain ⟨-, rfl⟩ := List.append_singleton_inj.mp (hxs.symm.trans hxs')
      exact ⟨hread, hloses⟩

theorem Poised.concluded_of_failed {failure : Failure} (h : Poised xs w) (hsound : w.Sound)
    (hturn : Turned w ys (.error failure)) : Concluded w.maxRecoveries (xs ++ ys) := by
  cases hturn with
  | @unreserved x _ hreservation hx =>
      have hreserve := h.timely_reserve hsound hreservation hx.request_eq
      obtain ⟨-, -, hloses⟩ := uneventful_of_reserves hx
      refine ⟨throughout_concat.mpr ⟨h.timely, hreserve⟩, fun front y hxs hy => ?_,
        fun front z hxs _ => ?_⟩
      · obtain ⟨-, rfl⟩ := List.append_singleton_inj.mp hxs
        rw [hloses] at hy
        contradiction
      · obtain ⟨-, rfl⟩ := List.append_singleton_inj.mp hxs
        exact granted?_of_performs hx
  | refused hls hzs =>
      rw [← List.append_assoc]
      exact (h.ready hsound hls).concluded hzs fun htells => by contradiction
  | @spent ls zs _ _ hls hzs hcancel hbudget =>
      have hlosses := hzs.ends.losses_append (xs ++ ls)
      rw [hls.losses_append, h.losses_eq] at hlosses
      rw [← List.append_assoc]
      refine (h.ready hsound hls).concluded hzs fun htells => ?_
      rw [hlosses, htells]
      exact Nat.lt_succ_of_le hbudget
  | failed hls hzs hcancel =>
      rw [← List.append_assoc]
      refine (h.ready hsound hls).concluded hzs fun htells => ?_
      rw [tellsOfLoss, hcancel] at htells
      contradiction

theorem Finished.concluded {result : Except Failure (List Record)} (hsound : w.Sound)
    (h : Poised [] w) (hfinished : Finished w xs result) : Concluded w.maxRecoveries xs := by
  cases hfinished with
  | arrived hwalked hdone =>
      rw [← hwalked.maxRecoveries_eq]
      exact (hwalked.poised hsound h).concluded_of_done hdone
  | failed hwalked _ hturn =>
      rw [← hwalked.maxRecoveries_eq]
      exact (hwalked.poised hsound h).concluded_of_failed (hwalked.sound hsound) hturn

/-- After a loss that is not the last exchange comes a reservation, and after that the record
that was lost. -/
theorem Concluded.resumes {maxRecoveries : Nat} {before after : List Exchange} {y : Exchange}
    (h : Concluded maxRecoveries xs) (hxs : xs = before ++ y :: after) (hy : loses y = true)
    (hafter : after ≠ []) : Resumes y after := by
  obtain ⟨z, rest, rfl⟩ := List.exists_cons_of_ne_nil hafter
  have hz : isReserve z = true :=
    (h.timely (before ++ [y]) z (by simp [hxs])).renew before y rfl hy
  refine ⟨z, rest, rfl, of_decide_eq_true hz, fun reservation hgranted => ?_⟩
  rcases rest with _ | ⟨x, rest⟩
  · rw [h.refused (before ++ [y]) z (by simp [hxs]) hz] at hgranted
    contradiction
  · obtain ⟨id, hid, hx⟩ := (h.timely (before ++ [y] ++ [z]) x (by simp [hxs])).restart
      before y z reservation rfl hy hz hgranted
    exact ⟨x, rest, id, rfl, hid, hx⟩

/-- A loss that a walk may recover from is not the last exchange. -/
theorem Concluded.restarted {maxRecoveries : Nat} {before after : List Exchange} {y : Exchange}
    (h : Concluded maxRecoveries xs) (hxs : xs = before ++ y :: after) (hy : loses y = true)
    (hbudget : losses (before ++ [y]) ≤ maxRecoveries) : Resumes y after := by
  refine h.resumes hxs hy fun hnil => ?_
  rw [hnil] at hxs
  have hspent := h.spent before y hxs hy
  rw [hxs] at hspent
  omega

/-- Whatever the controller replies, a walk keeps the discipline of reservations, and
returns no record that was read under two of them. -/
theorem disciplined_finish {σ : Type} (t : Transport σ) (s : σ) (start : RecordId)
    (maxRecoveries : Nat) (limit : Option Nat) :
    let r := ((Walk.start start maxRecoveries).limited limit).finish.run t s
    Disciplined maxRecoveries r.exchanges r.result := by
  intro r
  have hsound := sound_start start maxRecoveries limit
  have hfinished := finished_run ((Walk.start start maxRecoveries).limited limit) t s
  have hconcluded := hfinished.concluded hsound (poised_start start maxRecoveries limit)
  rw [maxRecoveries_limited] at hconcluded
  refine ⟨hconcluded.timely.imp fun _ _ hx => hx.token,
    hconcluded.timely.imp fun _ _ hx => hx.reserve,
    fun before y after hxs hy hbudget => hconcluded.restarted hxs hy hbudget,
    fun records hrecords => ?_⟩
  rw [hrecords] at hfinished
  obtain ⟨w', hwalked, hdone, rfl⟩ := hfinished.exists_walked
  obtain ⟨visits, detour, htrail⟩ := hwalked.exists_trail hsound (records_limited _ _)
  have hexchanges := htrail.exchanges_eq
  rw [htrail.detour_eq_nil hdone, List.append_nil] at hexchanges
  refine ⟨visits, htrail.records_eq, hexchanges, fun before v after hvisits => ?_⟩
  have htimely := hconcluded.timely
  rw [hexchanges, hvisits, List.flatMap_append, List.flatMap_cons, ← List.append_assoc] at htimely
  exact (htrail.valid v (by simp [hvisits])).untorn htimely

end Walk

end Baseboard.Sel
