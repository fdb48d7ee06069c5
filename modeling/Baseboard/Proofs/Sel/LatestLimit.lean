import Baseboard.Proofs.Sel.Calls

/-!
# Baseboard.Proofs.Sel.LatestLimit

A limit that is set on a walk at any moment, and what comes of it whatever is called
afterwards.  Of several limits the one that was set last counts.

A limit is looked at when a record is accepted, and when it is set only if it is zero.  So a
walk that goes on although it has as many records as the limit already, which has
`Outgrown` it, takes one more before it stops.  Any other walk keeps to its limit.

`Since` is the invariant from the moment on when the limit was set, kept by one call
(`Since.called`) and by any number of them (`Since.afterCalls`).  Main statement:
`limited_of_permitted`.
-/

namespace Baseboard.Sel.Walk

/-- Whether a call sets a limit. -/
def Call.isLimit : Call → Bool
  | limit _ => true
  | _ => false

variable {w₀ w : Walk} {limit : Nat}

/-- A walk that goes on with as many records as the limit that it is given, or more.  Zero
ends every walk at once, and so it is not outgrown. -/
structure Outgrown (w : Walk) (limit : Nat) : Prop where
  done_eq : w.done = false
  limit_pos : 0 < limit
  limit_le : limit ≤ w.records.length

/-! ## One call -/

/-- Only a call that sets a limit changes it. -/
theorem limit_call {c : Call} (h : c.isLimit = false) : (w.call c).2.limit = w.limit := by
  cases c with
  | reserved reservation => rfl
  | record next data =>
      simp only [call, accept]
      cases Record.decode data with
      | error failure => rfl
      | ok record =>
          dsimp only
          split <;> rfl
  | lost failure =>
      simp only [call, lose]
      by_cases hbudget : w.recoveries < w.maxRecoveries
      · rw [if_pos hbudget]
      · rw [if_neg hbudget]
  | limit limit => contradiction

/-- A walk stops with a record that reaches its limit. -/
theorem done_moveOn {record : Record} {next : RecordId} (hlimit : w.limit = some limit)
    (hle : limit ≤ w.records.length + 1) : (w.moveOn record next).done = true := by
  simp [moveOn, reachesLimit, hlimit, hle]

/-- A walk under a limit that was set on `w₀`, and no other since. -/
inductive Since (limit : Nat) (w₀ w : Walk) : Prop where
  /-- No record came: the walk is done if it was, or if the limit is zero. -/
  | waiting (limit_eq : w.limit = some limit) (length_eq : w.records.length = w₀.records.length)
      (done_eq : w.done = (w₀.done || decide (limit = 0)))
  /-- Records came, and the limit was looked at with each. -/
  | moving (limit_eq : w.limit = some limit) (going : w₀.done = false) (limit_pos : 0 < limit)
      (length_lt : w₀.records.length < w.records.length)
      (length_le : w.records.length ≤ max limit (w₀.records.length + 1))
      (done_of_le : limit ≤ w.records.length → w.done = true)

theorem since_withLimit (w₀ : Walk) (limit : Nat) : Since limit w₀ (w₀.withLimit limit) :=
  .waiting rfl rfl rfl

theorem Since.limit_eq (h : Since limit w₀ w) : w.limit = some limit := by
  cases h with
  | waiting hlimit => exact hlimit
  | moving hlimit => exact hlimit

/-- A record that is accepted reaches the limit, or leaves room below it. -/
theorem Since.accepted {next : RecordId} {record : Record} (h : Since limit w₀ w)
    (hdone : w.done = false) : Since limit w₀ ((w.meet record).moveOn record next) := by
  have hlimit := h.limit_eq
  have hlength : ((w.meet record).moveOn record next).records.length = w.records.length + 1 :=
    List.length_append
  have hstops : limit ≤ w.records.length + 1 →
      ((w.meet record).moveOn record next).done = true :=
    done_moveOn (w := w.meet record) hlimit
  cases h with
  | waiting _ heq hwaiting =>
      rw [hwaiting, Bool.or_eq_false_iff, decide_eq_false_iff_not] at hdone
      obtain ⟨hgoing, hzero⟩ := hdone
      refine .moving hlimit hgoing (Nat.pos_of_ne_zero hzero) ?_ ?_ ?_
      · omega
      · omega
      · rwa [hlength]
  | moving _ hgoing hpos hlt _ hreached =>
      -- The walk is not done, and so it was below the limit.
      have hroom : w.records.length < limit := Nat.lt_of_not_le fun hle => by
        rw [hreached hle] at hdone
        contradiction
      refine .moving hlimit hgoing hpos ?_ ?_ ?_
      · omega
      · omega
      · rwa [hlength]

/-- Every call keeps a walk under its limit, if it sets no other. -/
theorem Since.called {c : Call} (h : Since limit w₀ w) (hpermitted : (w.step c).Permitted)
    (hc : c.isLimit = false) : Since limit w₀ (w.call c).2 := by
  obtain hidle | ⟨next, data, record, rfl, -, -, hcall⟩ := w.idle_or_accepts c
  · have hnot : ∀ n, c ≠ .limit n := by
      rintro n rfl
      contradiction
    have hlength : (w.call c).2.records.length = w.records.length :=
      congrArg List.length hidle.records_eq
    have hdone : (w.call c).2.done = w.done := hidle.done_eq hnot
    have hlimit := limit_call (w := w) hc
    cases h with
    | waiting hset heq hwaiting =>
        exact .waiting (hlimit.trans hset) (hlength.trans heq) (hdone.trans hwaiting)
    | moving hset hgoing hpos hlt hle hreached =>
        rw [← hlength] at hlt hle hreached
        exact .moving (hlimit.trans hset) hgoing hpos hlt hle fun hn => hdone.trans (hreached hn)
  · rw [hcall]
    exact h.accepted (hpermitted rfl)

/-! ## Any calls -/

/-- So do all calls of any sequence. -/
theorem Since.afterCalls {calls : List Call} (h : Since limit w₀ w)
    (hpermitted : ∀ s ∈ w.steps calls, s.Permitted)
    (hcalls : ∀ c ∈ calls, c.isLimit = false) :
    Since limit w₀ (w.afterCalls calls) := by
  induction calls generalizing w with
  | nil => exact h
  | cons c calls ih =>
      obtain ⟨hfirst, hrest⟩ := List.forall_mem_cons.mp hpermitted
      obtain ⟨hc, hcalls⟩ := List.forall_mem_cons.mp hcalls
      exact ih (h.called hfirst hc) hrest hcalls

/-- What holds of a walk some calls after a limit was set on `w₀`. -/
structure Limited (limit : Nat) (w₀ w : Walk) : Prop where
  limit_eq : w.limit = some limit
  /-- The limit is kept, and the walk is done when it has reached it. -/
  kept : ¬w₀.Outgrown limit → w.records.length ≤ max limit w₀.records.length ∧
    (limit ≤ w.records.length → w.done = true)
  /-- A walk that had outgrown the limit goes on as if it had not, until one more record
  came. -/
  overrun : w₀.Outgrown limit →
    (w.records.length = w₀.records.length ∧ w.done = false) ∨
      (w.records.length = w₀.records.length + 1 ∧ w.done = true)
  /-- There is a record that it takes, whatever it met. -/
  takes_one : w₀.Outgrown limit → w.done = false →
    ∃ data w', w.accept .last data = (.ok (), w') ∧
      w'.records.length = w₀.records.length + 1

/-- A record that ends the log never leads back, and so some such record is accepted. -/
theorem exists_accept_last (w : Walk) :
    ∃ data w', w.accept .last data = (.ok (), w') ∧
      w'.records.length = w.records.length + 1 := by
  obtain ⟨record, hrecord⟩ : ∃ record, Record.decode (plainRecord 1) = .ok record :=
    ⟨_, rfl⟩
  have hleads : ¬(w.meet record).LeadsBack .last := fun h => h.1 rfl
  refine ⟨plainRecord 1, (w.meet record).moveOn record .last, ?_, List.length_append⟩
  simp only [accept, hrecord, if_neg hleads]

theorem Since.limited (h : Since limit w₀ w) : Limited limit w₀ w := by
  cases h with
  | waiting hlimit heq hdone =>
      refine ⟨hlimit, fun hkept => ⟨by omega, fun hle => ?_⟩, fun hout => .inl ⟨heq, ?_⟩,
        fun _ _ => heq ▸ w.exists_accept_last⟩
      · cases hgoing : w₀.done with
        | true => rw [hdone, hgoing, Bool.true_or]
        | false =>
            have hzero : limit = 0 := Nat.eq_zero_of_not_pos fun hpos =>
              hkept ⟨hgoing, hpos, heq ▸ hle⟩
            simp [hdone, hzero]
      · have hzero : limit ≠ 0 := Nat.ne_of_gt hout.limit_pos
        simp [hdone, hout.done_eq, hzero]
  | moving hlimit hgoing hpos hlt hle hreached =>
      refine ⟨hlimit, fun hkept => ⟨?_, hreached⟩, fun hout => .inr ?_,
        fun hout hgoes => ?_⟩
      · have hroom : w₀.records.length < limit := Nat.lt_of_not_le fun hfull =>
          hkept ⟨hgoing, hpos, hfull⟩
        omega
      · have hfull := hout.limit_le
        exact ⟨by omega, hreached (by omega)⟩
      · have hfull := hout.limit_le
        rw [hreached (by omega)] at hgoes
        contradiction

/-- Whatever is called before and after, the limit that was set last on a walk is kept from
then on, unless the walk had outgrown it; then the walk goes on and takes one more record. -/
theorem limited_of_permitted {start : RecordId} {maxRecoveries limit : Nat}
    {earlier later : List Call}
    (hpermitted : ∀ s ∈
      (Walk.start start maxRecoveries).steps (earlier ++ .limit limit :: later), s.Permitted)
    (hlatest : ∀ c ∈ later, c.isLimit = false) :
    Limited limit ((Walk.start start maxRecoveries).afterCalls earlier)
      ((Walk.start start maxRecoveries).afterCalls (earlier ++ .limit limit :: later)) := by
  rw [steps_append] at hpermitted
  have hlater := (List.forall_mem_cons.mp (List.forall_mem_append.mp hpermitted).2).2
  rw [afterCalls_append]
  exact ((since_withLimit _ limit).afterCalls hlater hlatest).limited

/-- A limit that is set twice, the second time with one record accepted and room for one
more, among a loss and a record that leads back. -/
theorem limited_loweredLimit :
    let earlier : List Call := [.limit 5, .reserved ⟨7⟩, .record ⟨2⟩ (plainRecord 1)]
    let later : List Call :=
      [.lost .timeout, .record ⟨1⟩ (plainRecord 2), .record ⟨3⟩ (plainRecord 2),
        .reserved ⟨8⟩]
    let w₀ := (Walk.start .first 1).afterCalls earlier
    let w := (Walk.start .first 1).afterCalls (earlier ++ .limit 2 :: later)
    (∀ s ∈ (Walk.start .first 1).steps (earlier ++ .limit 2 :: later), s.Permitted) ∧
      (∀ c ∈ later, c.isLimit = false) ∧ w₀.records.map (·.id) = [⟨1⟩] ∧
      w.records.map (·.id) = [⟨1⟩, ⟨2⟩] ∧ w.done = true ∧ Limited 2 w₀ w := by
  intro earlier later w₀ w
  have hpermitted : ∀ s ∈ (Walk.start .first 1).steps (earlier ++ .limit 2 :: later),
      s.Permitted := by decide
  have hlatest : ∀ c ∈ later, c.isLimit = false := by decide
  exact ⟨hpermitted, hlatest, by decide, by decide, by decide,
    limited_of_permitted hpermitted hlatest⟩

/-- A walk with one record is given the limit of one record and goes on all the same, to
have two. -/
theorem limit_overrun :
    let calls : List Call := [.record ⟨2⟩ (plainRecord 1), .limit 1]
    let w := (Walk.start .first 0).afterCalls calls
    let w' := (w.call (.record ⟨3⟩ (plainRecord 2))).2
    (∀ s ∈ (Walk.start .first 0).steps (calls ++ [.record ⟨3⟩ (plainRecord 2)]),
        s.Permitted) ∧
      w.limit = some 1 ∧ w.records.length = 1 ∧ w.done = false ∧
      w'.limit = some 1 ∧ max 1 w.records.length < w'.records.length := by
  decide

end Baseboard.Sel.Walk
