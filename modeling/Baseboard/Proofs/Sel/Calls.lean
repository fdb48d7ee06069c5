import Baseboard.Sel.Walk

/-!
# Baseboard.Proofs.Sel.Calls

A walk that is called by anyone and in any order, and not only by the reading of a log.  It
is given reservations, records, losses and limits with any arguments; only a walk that is
done is given no more records.

A `Step` is one call with the walk before and after it.  A step either accepts a record or
leaves the walk where it was (`Walk.idle_or_accepts`).  `OnCourse` is the invariant that ties
the identifiers which a walk has met to its cursor and its records, kept by one call
(`OnCourse.called`) and by any number of them (`OnCourse.afterCalls`).  Main statement:
`upheld_of_permitted`.
-/

namespace Baseboard.Sel.Walk

/-! ## Calls -/

/-- A call on a walk. -/
inductive Call where
  | reserved (reservation : Reservation)
  | record (next : RecordId) (data : List UInt8)
  | lost (failure : Failure)
  | limit (limit : Nat)
  deriving DecidableEq, Repr

/-- Whether a call gives the walk a record. -/
def Call.isRecord : Call → Bool
  | record _ _ => true
  | _ => false

/-- What a call returns, and the walk after it. -/
def call (w : Walk) : Call → Except Failure Unit × Walk
  | .reserved reservation => (.ok (), w.reserved reservation)
  | .record next data => w.accept next data
  | .lost failure =>
    match w.lose failure with
    | .ok w' => (.ok (), w')
    | .error failure => (.error failure, w)
  | .limit limit => (.ok (), w.withLimit limit)

/-- A call with what it returned, and the walk before and after it. -/
structure Step where
  before : Walk
  call : Call
  result : Except Failure Unit
  after : Walk

/-- A call on a walk, as a step. -/
def step (w : Walk) (c : Call) : Step := ⟨w, c, (w.call c).1, (w.call c).2⟩

/-- Some calls on a walk, one after the other, as steps. -/
def steps (w : Walk) : List Call → List Step
  | [] => []
  | c :: calls => w.step c :: (w.call c).2.steps calls

/-- The walk after some calls. -/
def afterCalls (w : Walk) : List Call → Walk
  | [] => w
  | c :: calls => (w.call c).2.afterCalls calls

theorem steps_append (w : Walk) (earlier later : List Call) :
    w.steps (earlier ++ later) = w.steps earlier ++ (w.afterCalls earlier).steps later := by
  induction earlier generalizing w with
  | nil => rfl
  | cons c calls ih => exact congrArg (w.step c :: ·) (ih (w.call c).2)

theorem afterCalls_append (w : Walk) (earlier later : List Call) :
    w.afterCalls (earlier ++ later) = (w.afterCalls earlier).afterCalls later := by
  induction earlier generalizing w with
  | nil => rfl
  | cons c calls ih => exact ih (w.call c).2

/-- Whether a step gives no record to a walk that is done. -/
def Step.Permitted (s : Step) : Prop := s.call.isRecord = true → s.before.done = false

instance (s : Step) : Decidable s.Permitted := inferInstanceAs (Decidable (_ → _))

/-! ## Accepted records -/

/-- A record that a walk accepted: the cursor that it had, the identifier that was named as
the next one, and the bytes of the record. -/
structure Acceptance where
  cursor : RecordId
  next : RecordId
  data : List UInt8

/-- The record that a step accepted, if it did. -/
def Step.acceptance? (s : Step) : Option Acceptance :=
  match s.call, s.result with
  | .record next data, .ok () => some ⟨s.before.cursor, next, data⟩
  | _, _ => none

/-- The records that some steps accepted, in order. -/
def acceptances (steps : List Step) : List Acceptance := steps.filterMap Step.acceptance?

theorem acceptances_concat_of_none {steps : List Step} {s : Step} (h : s.acceptance? = none) :
    acceptances (steps ++ [s]) = acceptances steps := by
  simp [acceptances, h]

theorem acceptances_concat_of_some {steps : List Step} {s : Step} {a : Acceptance}
    (h : s.acceptance? = some a) : acceptances (steps ++ [s]) = acceptances steps ++ [a] := by
  simp [acceptances, h]

/-! ## What one call does -/

/-- What holds of a step that accepts no record. -/
structure Step.Idle (s : Step) : Prop where
  acceptance?_eq : s.acceptance? = none
  cursor_eq : s.after.cursor = s.before.cursor
  records_eq : s.after.records = s.before.records
  maxRecoveries_eq : s.after.maxRecoveries = s.before.maxRecoveries
  /-- Nothing that was met is forgotten. -/
  visited_sub : ∀ id ∈ s.before.visited, id ∈ s.after.visited
  recoveries_le : s.before.recoveries ≤ s.before.maxRecoveries →
    s.after.recoveries ≤ s.after.maxRecoveries
  done_of_done : s.before.done = true → s.after.done = true
  done_eq : (∀ limit, s.call ≠ .limit limit) → s.after.done = s.before.done
  refused : ∀ failure, s.result = .error failure →
    s.after.reservation = s.before.reservation ∧ s.after.done = s.before.done

theorem mem_visited_meet {w : Walk} {record : Record} {id : RecordId}
    (h : id ∈ w.cursor :: w.visited) : id ∈ (w.meet record).visited :=
  List.mem_cons_of_mem _ h

/-- What does not lead back and does not end the log was not met. -/
theorem ne_of_not_leadsBack {w : Walk} {next id : RecordId} (h : ¬w.LeadsBack next)
    (hnext : next ≠ .last) (hid : id ∈ w.visited) : next ≠ id := by
  rintro rfl
  exact h ⟨hnext, hid⟩

/-- A call gives the walk a record that leads on and is accepted, or it is idle. -/
theorem idle_or_accepts (w : Walk) (c : Call) :
    (w.step c).Idle ∨ ∃ next data record, c = .record next data ∧
      Record.decode data = .ok record ∧ ¬(w.meet record).LeadsBack next ∧
      w.call c = (.ok (), (w.meet record).moveOn record next) := by
  cases c with
  | reserved reservation =>
      exact .inl ⟨rfl, rfl, rfl, rfl, fun _ => id, id, id, fun _ => rfl, nofun⟩
  | limit limit =>
      have hdone : w.done = true → (w.withLimit limit).done = true := fun h => by
        simp [withLimit, h]
      exact .inl ⟨rfl, rfl, rfl, rfl, fun _ => id, id, hdone, fun h => absurd rfl (h limit),
        nofun⟩
  | lost failure =>
      left
      by_cases hbudget : w.recoveries < w.maxRecoveries
      · have hcall : w.call (.lost failure) =
            (.ok (), { w with recoveries := w.recoveries + 1, reservation := none }) := by
          simp only [call, lose, if_pos hbudget]
        rw [step, hcall]
        exact ⟨rfl, rfl, rfl, rfl, fun _ => id, fun _ => hbudget, id, fun _ => rfl, nofun⟩
      · have hcall : w.call (.lost failure) = (.error failure, w) := by
          simp only [call, lose, if_neg hbudget]
        rw [step, hcall]
        exact ⟨rfl, rfl, rfl, rfl, fun _ => id, id, id, fun _ => rfl, fun _ _ => ⟨rfl, rfl⟩⟩
  | record next data =>
      cases hrecord : Record.decode data with
      | error failure =>
          left
          have hcall : w.call (.record next data) = (.error failure, w) := by
            simp only [call, accept, hrecord]
          rw [step, hcall]
          exact ⟨rfl, rfl, rfl, rfl, fun _ => id, id, id, fun _ => rfl,
            fun _ _ => ⟨rfl, rfl⟩⟩
      | ok record =>
          by_cases hback : (w.meet record).LeadsBack next
          · -- The walk has met the record, but neither its cursor nor its records tell.
            left
            have hcall : w.call (.record next data) =
                (.error (.protocol "SEL next record ID revisits an earlier record"),
                  w.meet record) := by
              simp only [call, accept, hrecord, if_pos hback]
            rw [step, hcall]
            have hmet : ∀ id ∈ w.visited, id ∈ (w.meet record).visited := fun _ hid =>
              mem_visited_meet (List.mem_cons_of_mem _ hid)
            exact ⟨rfl, rfl, rfl, rfl, hmet, id, id, fun _ => rfl, fun _ _ => ⟨rfl, rfl⟩⟩
          · right
            refine ⟨next, data, record, rfl, hrecord, hback, ?_⟩
            simp only [call, accept, hrecord, if_neg hback]

/-! ## What any calls keep -/

/-- What holds of a walk from `start` that may lose `maxRecoveries` reservations in a row,
after some steps. -/
structure Upheld (start : RecordId) (maxRecoveries : Nat) (steps : List Step) (w : Walk) :
    Prop where
  /-- The walk has the accepted records and no others, in order. -/
  records_eq : w.records.map .ok = (acceptances steps).map fun a => Record.decode a.data
  /-- No record is accepted twice at one cursor. -/
  nodup : ((acceptances steps).map (·.cursor)).Nodup
  /-- A record that is accepted leads on to the end of the log, or to an identifier that was
  not the cursor before and that no accepted record has. -/
  leads_on : ∀ earlier s a, earlier ++ [s] <+: steps → s.acceptance? = some a →
    a.next ≠ .last →
    a.next ≠ start ∧ (∀ t ∈ earlier ++ [s], a.next ≠ t.before.cursor) ∧
      ∀ b ∈ acceptances (earlier ++ [s]), ∀ record, Record.decode b.data = .ok record →
        a.next ≠ record.id
  recoveries_le : w.recoveries ≤ maxRecoveries
  /-- Reservations and losses leave the walk where it was. -/
  steady : ∀ s ∈ steps, s.call.isRecord = false → (∀ limit, s.call ≠ .limit limit) →
    s.after.cursor = s.before.cursor ∧ s.after.records = s.before.records ∧
      s.after.done = s.before.done
  /-- A call that fails leaves the walk as callers saw it. -/
  refused : ∀ s ∈ steps, ∀ failure, s.result = .error failure →
    s.after.cursor = s.before.cursor ∧ s.after.reservation = s.before.reservation ∧
      s.after.done = s.before.done ∧ s.after.records = s.before.records

/-- What any calls keep, with how the identifiers that the walk has met go with them. -/
structure OnCourse (start : RecordId) (maxRecoveries : Nat) (steps : List Step) (w : Walk) : Prop
    extends Upheld start maxRecoveries steps w where
  maxRecoveries_eq : w.maxRecoveries = maxRecoveries
  done_of_last : w.cursor = .last → w.done = true
  start_met : start ∈ w.cursor :: w.visited
  cursors_met : ∀ s ∈ steps, s.before.cursor ∈ w.cursor :: w.visited
  accepted_met : ∀ a ∈ acceptances steps, a.cursor ∈ w.visited ∧
    ∀ record, Record.decode a.data = .ok record → record.id ∈ w.visited
  /-- Nothing was accepted at the cursor yet. -/
  fresh : w.cursor ≠ .last → ∀ a ∈ acceptances steps, a.cursor ≠ w.cursor

theorem onCourse_start (start : RecordId) (maxRecoveries : Nat) :
    OnCourse start maxRecoveries [] (Walk.start start maxRecoveries) where
  records_eq := rfl
  nodup := List.nodup_nil
  leads_on earlier s _ h := by simp at h
  recoveries_le := Nat.zero_le _
  steady := by simp
  refused := by simp
  maxRecoveries_eq := rfl
  done_of_last h := decide_eq_true h
  start_met := List.mem_cons_self
  cursors_met := by simp
  accepted_met := by simp [acceptances]
  fresh := by simp [acceptances]

namespace OnCourse

variable {start : RecordId} {maxRecoveries : Nat} {steps : List Step} {w : Walk}

/-- A step that accepts nothing keeps a walk on course. -/
theorem idle {s : Step} (h : OnCourse start maxRecoveries steps s.before) (hs : s.Idle) :
    OnCourse start maxRecoveries (steps ++ [s]) s.after := by
  have hmet : ∀ id ∈ s.before.cursor :: s.before.visited,
      id ∈ s.after.cursor :: s.after.visited := by
    rw [hs.cursor_eq]
    exact List.forall_mem_cons.mpr ⟨List.mem_cons_self, fun id hid =>
      List.mem_cons_of_mem _ (hs.visited_sub id hid)⟩
  have hsame : acceptances (steps ++ [s]) = acceptances steps :=
    acceptances_concat_of_none hs.acceptance?_eq
  exact {
    records_eq := by
      rw [hsame, hs.records_eq]
      exact h.records_eq
    nodup := hsame ▸ h.nodup
    leads_on := by
      intro earlier t a hprefix ha
      rcases List.prefix_concat_iff.mp hprefix with heq | hprefix
      · obtain ⟨-, rfl⟩ := List.append_singleton_inj.mp heq
        rw [hs.acceptance?_eq] at ha
        contradiction
      · exact h.leads_on earlier t a hprefix ha
    recoveries_le := by
      have hle := hs.recoveries_le (h.maxRecoveries_eq ▸ h.recoveries_le)
      rwa [hs.maxRecoveries_eq, h.maxRecoveries_eq] at hle
    steady := List.forall_mem_append.mpr ⟨h.steady, List.forall_mem_singleton.mpr
      fun _ hlimit => ⟨hs.cursor_eq, hs.records_eq, hs.done_eq hlimit⟩⟩
    refused := List.forall_mem_append.mpr ⟨h.refused, List.forall_mem_singleton.mpr
      fun failure hfailure =>
        have hrefused := hs.refused failure hfailure
        ⟨hs.cursor_eq, hrefused.1, hrefused.2, hs.records_eq⟩⟩
    maxRecoveries_eq := hs.maxRecoveries_eq.trans h.maxRecoveries_eq
    done_of_last := fun hlast => hs.done_of_done (h.done_of_last (hs.cursor_eq ▸ hlast))
    start_met := hmet start h.start_met
    cursors_met := List.forall_mem_append.mpr
      ⟨fun t ht => hmet _ (h.cursors_met t ht),
        List.forall_mem_singleton.mpr (hmet _ List.mem_cons_self)⟩
    accepted_met := by
      rw [hsame]
      intro a ha
      obtain ⟨hcursor, hids⟩ := h.accepted_met a ha
      exact ⟨hs.visited_sub _ hcursor, fun record hrecord =>
        hs.visited_sub _ (hids record hrecord)⟩
    fresh := by
      rw [hsame, hs.cursor_eq]
      exact h.fresh }

/-- A walk that is not done does not ask for what ends the log. -/
theorem cursor_ne_last (h : OnCourse start maxRecoveries steps w) (hdone : w.done = false) :
    w.cursor ≠ .last := by
  intro hlast
  rw [h.done_of_last hlast] at hdone
  contradiction

/-- A walk that meets a record has met all cursors so far. -/
theorem cursors_meet (h : OnCourse start maxRecoveries steps w) (record : Record) {s : Step}
    (hs : s.before = w) : ∀ t ∈ steps ++ [s], t.before.cursor ∈ (w.meet record).visited :=
  List.forall_mem_append.mpr
    ⟨fun t ht => mem_visited_meet (h.cursors_met t ht),
      List.forall_mem_singleton.mpr (hs ▸ mem_visited_meet List.mem_cons_self)⟩

/-- It has met all that was accepted so far, this record included. -/
theorem accepted_meet (h : OnCourse start maxRecoveries steps w) (next : RecordId)
    {data : List UInt8} {record : Record} (hrecord : Record.decode data = .ok record) :
    ∀ a ∈ acceptances steps ++ [⟨w.cursor, next, data⟩],
      a.cursor ∈ (w.meet record).visited ∧
      ∀ other, Record.decode a.data = .ok other → other.id ∈ (w.meet record).visited := by
  refine List.forall_mem_append.mpr ⟨fun a ha => ?_, List.forall_mem_singleton.mpr
    ⟨mem_visited_meet List.mem_cons_self, fun other hother => ?_⟩⟩
  · obtain ⟨hcursor, hids⟩ := h.accepted_met a ha
    exact ⟨mem_visited_meet (List.mem_cons_of_mem _ hcursor), fun other hother =>
      mem_visited_meet (List.mem_cons_of_mem _ (hids other hother))⟩
  · obtain rfl := Except.ok.inj (hrecord.symm.trans hother)
    exact List.mem_cons_self

/-- A record that is accepted keeps a walk on course, if the walk is not done. -/
theorem accepted {next : RecordId} {data : List UInt8} {record : Record} {s : Step}
    (h : OnCourse start maxRecoveries steps w) (hdone : w.done = false)
    (hrecord : Record.decode data = .ok record) (hfresh : ¬(w.meet record).LeadsBack next)
    (hs : s = ⟨w, .record next data, .ok (), (w.meet record).moveOn record next⟩) :
    OnCourse start maxRecoveries (steps ++ [s]) ((w.meet record).moveOn record next) := by
  have haccepts : s.acceptance? = some ⟨w.cursor, next, data⟩ := by rw [hs]; rfl
  have hmore : acceptances (steps ++ [s]) = acceptances steps ++ [⟨w.cursor, next, data⟩] :=
    acceptances_concat_of_some haccepts
  have hcursors := h.cursors_meet record (s := s) (by rw [hs])
  have haccepted := h.accepted_meet next hrecord
  exact {
    records_eq := by
      rw [hmore, List.map_append, ← h.records_eq]
      simp [moveOn, meet, hrecord]
    nodup := by
      rw [hmore, List.map_append, List.nodup_append]
      refine ⟨h.nodup, by simp, ?_⟩
      simpa using fun a ha => h.fresh (h.cursor_ne_last hdone) a ha
    leads_on := by
      intro earlier t a hprefix ha hnext
      rcases List.prefix_concat_iff.mp hprefix with heq | hprefix
      · obtain ⟨rfl, rfl⟩ := List.append_singleton_inj.mp heq
        obtain rfl := Option.some.inj (haccepts.symm.trans ha)
        have hunmet : ∀ id ∈ (w.meet record).visited, next ≠ id := fun _ hid =>
          ne_of_not_leadsBack hfresh hnext hid
        rw [hmore]
        exact ⟨hunmet _ (mem_visited_meet h.start_met), fun t ht => hunmet _ (hcursors t ht),
          fun b hb other hother => hunmet _ ((haccepted b hb).2 other hother)⟩
      · exact h.leads_on earlier t a hprefix ha hnext
    recoveries_le := Nat.zero_le _
    steady := List.forall_mem_append.mpr ⟨h.steady, by rw [hs]; simp [Call.isRecord]⟩
    refused := List.forall_mem_append.mpr ⟨h.refused, by rw [hs]; simp⟩
    maxRecoveries_eq := h.maxRecoveries_eq
    done_of_last := fun hlast => by
      have hnext : next.isLast = true := decide_eq_true hlast
      simp [moveOn, hnext]
    start_met := List.mem_cons_of_mem _ (mem_visited_meet h.start_met)
    cursors_met := fun t ht => List.mem_cons_of_mem _ (hcursors t ht)
    accepted_met := hmore ▸ haccepted
    fresh := fun hnext a ha =>
      (ne_of_not_leadsBack hfresh hnext (haccepted a (hmore ▸ ha)).1).symm }

/-- So does every call that a walk may be given. -/
theorem called {c : Call} (h : OnCourse start maxRecoveries steps w)
    (hpermitted : (w.step c).Permitted) :
    OnCourse start maxRecoveries (steps ++ [w.step c]) (w.call c).2 := by
  obtain hidle | ⟨next, data, record, rfl, hrecord, hfresh, hcall⟩ := w.idle_or_accepts c
  · exact h.idle hidle
  · rw [hcall]
    exact h.accepted (hpermitted rfl) hrecord hfresh (by rw [step, hcall])

/-- So do all calls of any sequence. -/
theorem afterCalls {calls : List Call} (h : OnCourse start maxRecoveries steps w)
    (hpermitted : ∀ s ∈ w.steps calls, s.Permitted) :
    OnCourse start maxRecoveries (steps ++ w.steps calls) (w.afterCalls calls) := by
  induction calls generalizing steps w with
  | nil => simpa [Walk.steps, Walk.afterCalls] using h
  | cons c calls ih =>
      obtain ⟨hfirst, hrest⟩ := List.forall_mem_cons.mp hpermitted
      have hcalls := ih (h.called hfirst) hrest
      rwa [List.append_assoc] at hcalls

end OnCourse

/-- Whatever is called, a fresh walk collects the records that it accepts, each at a cursor of
its own, and a record never leads it back.  Losing reservations and failing leave it where
it was. -/
theorem upheld_of_permitted {start : RecordId} {maxRecoveries : Nat} {calls : List Call}
    (h : ∀ s ∈ (Walk.start start maxRecoveries).steps calls, s.Permitted) :
    Upheld start maxRecoveries ((Walk.start start maxRecoveries).steps calls)
      ((Walk.start start maxRecoveries).afterCalls calls) :=
  ((onCourse_start start maxRecoveries).afterCalls h).toUpheld

/-- A record of a sensor event. -/
def plainRecord (id : UInt8) : List UInt8 := [id, 0, 0x02, 0, 0, 0, 0, 0, 0, 0, 0, 0, 0, 0, 0, 0]

/-- Two records that are accepted, among calls that fail: a record that leads back, a loss too
many and a record that is too short. -/
def mixedCalls : List Call :=
  [.reserved ⟨7⟩, .record ⟨2⟩ (plainRecord 1), .record ⟨1⟩ (plainRecord 2),
    .lost .timeout, .lost .timeout, .record ⟨5⟩ [0x02], .limit 2,
    .record ⟨5⟩ (plainRecord 2), .reserved ⟨8⟩]

theorem upheld_mixedCalls :
    (∀ s ∈ (Walk.start .first 1).steps mixedCalls, s.Permitted) ∧
      ((Walk.start .first 1).afterCalls mixedCalls).records.map (·.id) = [⟨1⟩, ⟨2⟩] ∧
      Upheld .first 1 ((Walk.start .first 1).steps mixedCalls)
        ((Walk.start .first 1).afterCalls mixedCalls) := by
  have hpermitted : ∀ s ∈ (Walk.start .first 1).steps mixedCalls, s.Permitted := by decide
  exact ⟨hpermitted, by decide, upheld_of_permitted hpermitted⟩

end Baseboard.Sel.Walk
