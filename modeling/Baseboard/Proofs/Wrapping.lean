import Baseboard.Failure

/-!
# Baseboard.Proofs.Wrapping

Failures inside failures.  Each failed read of an inventory lays a layer around the failure
that ended it, so every failure is an unwrapped one inside some layers (`exists_wrapped`).

What tells the class of a failure looks through the layers, however many there are; what tells
that a request may be sent again does not.  What stands behind a failure is followed cause by
cause (`Cause.chain`): first the failures inside its layers, from the outside in, and then what
stands behind the unwrapped one.

Main statement: what is seen of a wrapped failure, and how the classes divide the unwrapped ones
(`Failure.wrapped_observed`).
-/

namespace Baseboard

/-! ## Causes -/

/-- What may stand right behind a failure. -/
inductive Cause where
  | failure (failure : Failure)
  /-- An error of the operating system, which is told by its message. -/
  | io (kind : IoKind) (message : String)
  | settings (fault : SettingsFault)
  | fru (fault : Fru.Fault)

/-- What stands right behind a failure, if anything does. -/
def Failure.cause? : Failure → Option Cause
  | io kind message => some (.io kind message)
  | settings fault => some (.settings fault)
  | fru fault => some (.fru fault)
  | fruRead _ _ source => some (.failure source)
  | _ => none

namespace Cause

/-- What stands right behind a cause: only failures have causes of their own. -/
def next? : Cause → Option Cause
  | failure f => f.cause?
  | _ => none

/-- The wording of a cause. -/
def text : Cause → String
  | failure f => f.message
  | io _ message => message
  | settings fault => fault.message
  | fru fault => fault.message

/-- What stands behind a cause is smaller. -/
theorem sizeOf_next?_lt (c : Cause) : sizeOf c.next? < sizeOf (some c) := by
  cases c with
  | failure f => cases f <;> simp +arith [next?, Failure.cause?]
  | _ => simp +arith [next?]

/-- A cause and those behind it, each followed to the next until there is none. -/
def chain : Option Cause → List Cause
  | none => []
  | some c => c :: chain c.next?
termination_by c => sizeOf c
decreasing_by exact c.sizeOf_next?_lt

end Cause

namespace Failure

/-- The causes of a failure, the nearest first. -/
def causes (f : Failure) : List Cause := Cause.chain f.cause?

theorem causes_fruRead (offset : UInt16) (collected : List UInt8) (source : Failure) :
    (fruRead offset collected source).causes = .failure source :: source.causes := by
  rw [causes, cause?, Cause.chain]
  rfl

/-- The texts of the sources are those of the causes. -/
theorem sources_eq (f : Failure) : f.sources = f.causes.map Cause.text := by
  induction f with
  | fruRead offset collected source ih =>
      rw [causes_fruRead, List.map_cons, ← ih]
      rfl
  | _ => simp [sources, causes, cause?, Cause.chain, Cause.next?, Cause.text]

/-! ## Layers -/

/-- Where the read of an inventory ended, and what it had collected. -/
structure Layer where
  offset : UInt16
  collected : List UInt8

/-- A failure inside layers, the outermost first. -/
def wrapped (layers : List Layer) (e : Failure) : Failure :=
  layers.foldr (fun layer source => .fruRead layer.offset layer.collected source) e

/-- Whether a failure has no layer around it. -/
def Unwrapped : Failure → Prop
  | fruRead _ _ _ => False
  | _ => True

/-- The failures inside the layers, from the outside in. -/
def inside (layers : List Layer) (e : Failure) : List Cause :=
  (List.range layers.length).map fun i => .failure (wrapped (layers.drop (i + 1)) e)

theorem inside_cons (layer : Layer) (layers : List Layer) (e : Failure) :
    inside (layer :: layers) e = .failure (wrapped layers e) :: inside layers e := by
  rw [inside, List.length_cons, List.range_succ_eq_map, List.map_cons, List.map_map]
  rfl

/-- Every failure is an unwrapped one inside some layers. -/
theorem exists_wrapped (f : Failure) : ∃ layers e, Unwrapped e ∧ wrapped layers e = f := by
  induction f with
  | fruRead offset collected source ih =>
      obtain ⟨layers, e, hunwrapped, rfl⟩ := ih
      exact ⟨⟨offset, collected⟩ :: layers, e, hunwrapped, rfl⟩
  | _ =>
      refine ⟨[], _, ?_, rfl⟩
      exact trivial

/-! ## Observers that look through -/

section

variable (layers : List Layer) (e : Failure)

@[simp] theorem kind_wrapped : (wrapped layers e).kind = e.kind := by
  induction layers with
  | nil => rfl
  | cons layer layers ih => exact ih

@[simp] theorem completionCode?_wrapped :
    (wrapped layers e).completionCode? = e.completionCode? := by
  induction layers with
  | nil => rfl
  | cons layer layers ih => exact ih

@[simp] theorem isReservationCancelled_wrapped :
    (wrapped layers e).isReservationCancelled = e.isReservationCancelled := by
  rw [isReservationCancelled, completionCode?_wrapped, isReservationCancelled]

theorem causes_wrapped : (wrapped layers e).causes = inside layers e ++ e.causes := by
  induction layers with
  | nil => rfl
  | cons layer layers ih =>
      rw [inside_cons, List.cons_append, ← ih]
      exact causes_fruRead layer.offset layer.collected (wrapped layers e)

end

/-! ## The observer that does not -/

theorem isTimeout_iff {f : Failure} : f.isTimeout = true ↔ f = .timeout := by
  cases f <;> simp [isTimeout]

/-- A layer hides a timeout. -/
theorem isTimeout_wrapped_iff (layers : List Layer) (e : Failure) :
    (wrapped layers e).isTimeout = true ↔ layers.length = 0 ∧ e = .timeout := by
  rw [isTimeout_iff]
  cases layers with
  | nil => exact (and_iff_right rfl).symm
  | cons layer layers => exact ⟨nofun, nofun⟩

/-! ## Classes -/

theorem Kind.eq_of_label_eq (k k' : Kind) : k.label = k'.label → k = k' := by
  cases k <;> cases k' <;> decide

/-- Unwrapped failures are of one class just when they are of one variant. -/
theorem kind_eq_kind_iff {e e' : Failure} (h : Unwrapped e) (h' : Unwrapped e') :
    e.kind = e'.kind ↔ e.ctorIdx = e'.ctorIdx := by
  cases e with
  | fruRead offset collected source => exact h.elim
  | _ =>
      cases e' with
      | fruRead offset collected source => exact h'.elim
      | _ => simp [kind, Failure.ctorIdx]

theorem exists_kind_eq (k : Kind) : ∃ e, Unwrapped e ∧ e.kind = k := by
  cases k with
  | io => exact ⟨.io .other "", trivial, rfl⟩
  | timeout => exact ⟨.timeout, trivial, rfl⟩
  | config => exact ⟨.settings .zeroFruReadSize, trivial, rfl⟩
  | malformedResponse => exact ⟨.malformed "" 0 0 "", trivial, rfl⟩
  | completionCode => exact ⟨.refused "" .ok, trivial, rfl⟩
  | fru => exact ⟨.fru (.headerTooShort 0), trivial, rfl⟩
  | eraseTimeout => exact ⟨.eraseTimeout 0, trivial, rfl⟩
  | protocol => exact ⟨.protocol "", trivial, rfl⟩

/-- Only a refusal has a completion code, inside layers or not. -/
theorem isSome_completionCode?_iff (f : Failure) :
    f.completionCode?.isSome = true ↔ f.kind = .completionCode := by
  induction f with
  | fruRead offset collected source ih => exact ih
  | _ => simp [completionCode?, kind]

/-! ## What is seen of a failure -/

/-- Every failure is an unwrapped one inside some layers.  However many layers there are, they
leave the class, the completion code and the loss of a reservation as they are, while a timeout
counts as one only without them; the causes are the failures inside the layers, from the outside
in, and then those of the failure without them.  The classes, which differ by their labels, are
the variants of the unwrapped failures, and there is a completion code in one class alone. -/
theorem wrapped_observed :
    (∀ f, ∃ layers e, Unwrapped e ∧ wrapped layers e = f) ∧
    (∀ layers e,
      (wrapped layers e).kind = e.kind ∧
      (wrapped layers e).completionCode? = e.completionCode? ∧
      (wrapped layers e).isReservationCancelled = e.isReservationCancelled ∧
      ((wrapped layers e).isTimeout = true ↔ layers.length = 0 ∧ e = .timeout) ∧
      (wrapped layers e).causes = inside layers e ++ e.causes ∧
      (wrapped layers e).sources = (inside layers e ++ e.causes).map Cause.text) ∧
    (∀ e e', Unwrapped e → Unwrapped e' → (e.kind = e'.kind ↔ e.ctorIdx = e'.ctorIdx)) ∧
    (∀ k : Kind, ∃ e, Unwrapped e ∧ e.kind = k) ∧
    (∀ k k' : Kind, k.label = k'.label → k = k') ∧
    ∀ f : Failure, f.completionCode?.isSome = true ↔ f.kind = .completionCode := by
  refine ⟨exists_wrapped, fun layers e => ?_, fun e e' => kind_eq_kind_iff, exists_kind_eq,
    Kind.eq_of_label_eq, isSome_completionCode?_iff⟩
  have hcauses := causes_wrapped layers e
  have hsources := sources_eq (wrapped layers e)
  rw [hcauses] at hsources
  exact ⟨kind_wrapped layers e, completionCode?_wrapped layers e,
    isReservationCancelled_wrapped layers e, isTimeout_wrapped_iff layers e, hcauses, hsources⟩

/-- A cancelled reservation is seen through two layers, a timeout not even through one; their
classes and labels differ. -/
theorem wrapped_twice :
    let cancelled : Failure := .refused "Read FRU Data" .reservationCancelled
    let layers : List Layer := [⟨24, [0x41]⟩, ⟨8, []⟩]
    (wrapped layers cancelled).isReservationCancelled = true ∧
      (wrapped layers cancelled).causes =
        [.failure (.fruRead 8 [] cancelled), .failure cancelled] ∧
      (wrapped [⟨8, []⟩] .timeout).kind = .timeout ∧
      (wrapped [⟨8, []⟩] .timeout).isTimeout = false ∧
      cancelled.kind ≠ Failure.timeout.kind ∧
      cancelled.kind.label ≠ Failure.timeout.kind.label ∧
      (wrapped layers cancelled).completionCode?.isSome = true := by
  intro cancelled layers
  obtain ⟨-, hwrapped, hkinds, -, hlabels, hcode⟩ := wrapped_observed
  obtain ⟨-, -, hcancelled, -, hcauses, -⟩ := hwrapped layers cancelled
  obtain ⟨hkind, -, -, htimeout, -⟩ := hwrapped [⟨8, []⟩] .timeout
  have hown : cancelled.causes = [] := by simp [cancelled, causes, cause?, Cause.chain]
  have hclass : cancelled.kind ≠ Failure.timeout.kind := fun h =>
    absurd ((hkinds cancelled .timeout trivial trivial).mp h) (by decide)
  rw [hown] at hcauses
  refine ⟨hcancelled, hcauses, hkind, ?_, hclass, fun h => hclass (hlabels _ _ h),
    (hcode (wrapped layers cancelled)).mpr rfl⟩
  exact Bool.eq_false_iff.mpr fun h => absurd (htimeout.mp h).1 (by decide)

end Failure

end Baseboard
