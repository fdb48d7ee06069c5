import Baseboard.Command.Perform

/-!
# Baseboard.Proofs.Exchange

A run of a dialogue seen from the wire.  Of all that happens while a dialogue is
held, only its exchanges reach the controller: a request and the reply to it.  With
the pauses between them they are the acts of a run; dumps drop out.

The laws of `Dialogue.run` are restated for results that are known
(`run_andThen_of_ok`, `run_andThen_of_error`), a dialogue that waits nowhere does nothing
but exchange (`Unpaused.acts_run`), and a command is one exchange whose reply decides its
result (`run_perform`).
-/

namespace Baseboard

/-- A request and the reply to it. -/
structure Exchange where
  request : Request
  reply : Except Failure Response

/-- What a dialogue does: an exchange with the controller, or a wait. -/
inductive Act where
  | exchange (x : Exchange)
  | pause (milliseconds : Nat)

/-- The exchanges among the acts. -/
def Act.exchanges (acts : List Act) : List Exchange :=
  acts.filterMap fun
    | .exchange x => some x
    | .pause _ => none

@[simp] theorem Act.exchanges_nil : Act.exchanges [] = [] := rfl

@[simp] theorem Act.exchanges_cons_exchange (x : Exchange) (acts : List Act) :
    Act.exchanges (.exchange x :: acts) = x :: Act.exchanges acts := rfl

@[simp] theorem Act.exchanges_cons_pause (ms : Nat) (acts : List Act) :
    Act.exchanges (.pause ms :: acts) = Act.exchanges acts := rfl

namespace Dialogue

variable {σ α β : Type}

/-- The exchanges among the events. -/
def exchanges (events : List Event) : List Exchange :=
  events.filterMap fun
    | .exchange request reply => some ⟨request, reply⟩
    | _ => none

@[simp] theorem exchanges_append (xs ys : List Event) :
    exchanges (xs ++ ys) = exchanges xs ++ exchanges ys := List.filterMap_append

/-- The exchanges and the pauses among the events. -/
def acts (events : List Event) : List Act :=
  events.filterMap fun
    | .exchange request reply => some (.exchange ⟨request, reply⟩)
    | .pause milliseconds => some (.pause milliseconds)
    | .note _ => none

@[simp] theorem acts_append (xs ys : List Event) : acts (xs ++ ys) = acts xs ++ acts ys :=
  List.filterMap_append

/-- The exchanges of a run are those of its acts. -/
theorem exchanges_acts (events : List Event) :
    Act.exchanges (acts events) = exchanges events := by
  induction events with
  | nil => rfl
  | cons e es ih => cases e <;> simp_all [Act.exchanges, acts, exchanges]

/-- The requests of a run are those of its exchanges. -/
theorem requests_eq_map_exchanges (events : List Event) :
    requests events = (exchanges events).map (·.request) := by
  induction events with
  | nil => rfl
  | cons e es ih => cases e <;> simp_all [requests, exchanges]

/-- The exchanges of a run, in order. -/
def Run.exchanges (r : Run σ α) : List Exchange := Dialogue.exchanges r.events

/-- The acts of a run, in order. -/
def Run.acts (r : Run σ α) : List Act := Dialogue.acts r.events

theorem Run.exchanges_eq (r : Run σ α) : r.exchanges = Act.exchanges r.acts :=
  (exchanges_acts r.events).symm

/-- A run that other events happened before. -/
def Run.preceded (events : List Event) (r : Run σ α) : Run σ α :=
  { r with events := events ++ r.events }

@[simp] theorem Run.result_preceded (events : List Event) (r : Run σ α) :
    (r.preceded events).result = r.result := rfl

@[simp] theorem Run.exchanges_preceded (events : List Event) (r : Run σ α) :
    (r.preceded events).exchanges = Dialogue.exchanges events ++ r.exchanges :=
  exchanges_append events r.events

@[simp] theorem Run.acts_preceded (events : List Event) (r : Run σ α) :
    (r.preceded events).acts = Dialogue.acts events ++ r.acts :=
  acts_append events r.events

@[simp] theorem run_done (t : Transport σ) (result : Except Failure α) (s : σ) :
    (done result).run t s = ⟨result, [], s⟩ := rfl

@[simp] theorem run_pure (t : Transport σ) (a : α) (s : σ) :
    (pure a : Dialogue α).run t s = ⟨.ok a, [], s⟩ := rfl

@[simp] theorem run_fail (t : Transport σ) (failure : Failure) (s : σ) :
    (fail failure : Dialogue α).run t s = ⟨.error failure, [], s⟩ := rfl

/-- Going on with a result runs what follows from the state that is left. -/
theorem run_handle_eq (t : Transport σ) (d : Dialogue α) (k : Except Failure α → Dialogue β)
    (s : σ) :
    (d.handle k).run t s =
      ((k (d.run t s).result).run t (d.run t s).state).preceded (d.run t s).events :=
  run_handle t d k s

/-- After a value the dialogue goes on with what follows it. -/
theorem run_andThen_of_ok {t : Transport σ} {d : Dialogue α} (f : α → Dialogue β) {s : σ}
    {a : α} (h : (d.run t s).result = .ok a) :
    (d.andThen f).run t s =
      ((f a).run t (d.run t s).state).preceded (d.run t s).events := by
  rw [andThen, run_handle_eq, h]

/-- A failure ends the dialogue where it happened. -/
theorem run_andThen_of_error {t : Transport σ} {d : Dialogue α} (f : α → Dialogue β) {s : σ}
    {failure : Failure} (h : (d.run t s).result = .error failure) :
    (d.andThen f).run t s = ⟨.error failure, (d.run t s).events, (d.run t s).state⟩ := by
  rw [andThen, run_handle_eq, h]
  simp [Run.preceded]

/-- A value of both dialogues comes of a value of the first. -/
theorem exists_of_run_andThen {t : Transport σ} {d : Dialogue α} {f : α → Dialogue β} {s : σ}
    {b : β} (h : ((d.andThen f).run t s).result = .ok b) :
    ∃ a, (d.run t s).result = .ok a ∧ ((f a).run t (d.run t s).state).result = .ok b := by
  cases hresult : (d.run t s).result with
  | error failure =>
      rw [run_andThen_of_error f hresult] at h
      contradiction
  | ok a =>
      rw [run_andThen_of_ok f hresult] at h
      exact ⟨a, rfl, h⟩

/-- Settling the value of a dialogue sends nothing more. -/
theorem run_andThen_done (t : Transport σ) (d : Dialogue α) (f : α → Except Failure β)
    (s : σ) :
    (d.andThen fun a => done (f a)).run t s =
      ⟨(d.run t s).result.bind f, (d.run t s).events, (d.run t s).state⟩ := by
  rw [andThen, run_handle_eq]
  cases (d.run t s).result <;> simp [Run.preceded, Except.bind]

/-- Mapping the value of a dialogue sends nothing more. -/
theorem run_andThen_pure (t : Transport σ) (d : Dialogue α) (f : α → β) (s : σ) :
    (d.andThen fun a => pure (f a)).run t s =
      ⟨(d.run t s).result.map f, (d.run t s).events, (d.run t s).state⟩ :=
  run_andThen_done t d (fun a => .ok (f a)) s

/-! ## Dialogues without pauses -/

/-- Whether a dialogue waits nowhere, whatever the replies. -/
def Unpaused : Dialogue α → Prop
  | done _ => True
  | send _ next => ∀ reply, (next reply).Unpaused
  | pause _ _ => False
  | note _ next => next.Unpaused

theorem Unpaused.handle {d : Dialogue α} {k : Except Failure α → Dialogue β} (hd : d.Unpaused)
    (hk : ∀ result, (k result).Unpaused) : (d.handle k).Unpaused := by
  induction d with
  | done result => exact hk result
  | send request next ih => exact fun reply => ih reply (hd reply)
  | pause => exact hd.elim
  | note dump next ih => exact ih hd

theorem Unpaused.andThen {d : Dialogue α} {f : α → Dialogue β} (hd : d.Unpaused)
    (hf : ∀ a, (f a).Unpaused) : (d.andThen f).Unpaused :=
  hd.handle fun
    | .ok a => hf a
    | .error _ => trivial

/-- A dialogue that waits nowhere does nothing but exchange. -/
theorem Unpaused.acts_run {d : Dialogue α} (h : d.Unpaused) (t : Transport σ) (s : σ) :
    (d.run t s).acts = (d.run t s).exchanges.map .exchange := by
  induction d generalizing s with
  | done => rfl
  | send request next ih =>
      let answered := (t.send request).run s
      exact congrArg (Act.exchange ⟨request, answered.1⟩ :: ·)
        (ih answered.1 (h answered.1) answered.2)
  | pause => exact h.elim
  | note dump next ih => exact ih h s

end Dialogue

/-! ## Commands -/

namespace Command

variable {σ : Type}

/-- What a reply means for a command. -/
def outcome (c : Command) (reply : Except Failure Response) : Except Failure c.Output :=
  reply.bind c.parse

/-- A successful reply means what its data says. -/
theorem outcome_of_read? {c : Command} {data rest : List UInt8} {output : c.Output}
    (h : c.read? data = some (output, rest)) : c.outcome (.ok ⟨0x00, data⟩) = .ok output := by
  have hcode : (CompletionCode.ofByte 0x00).isSuccess = true := rfl
  simp only [outcome, Except.bind, parse, hcode, if_true, decode, h]
  rfl

/-- Data that a command cannot read is too short for it. -/
theorem outcome_of_read?_eq_none {c : Command} {data : List UInt8} (h : c.read? data = none) :
    c.outcome (.ok ⟨0x00, data⟩) = .error (.tooShort c.name c.minimum data) := by
  have hcode : (CompletionCode.ofByte 0x00).isSuccess = true := rfl
  simp only [outcome, Except.bind, parse, hcode, if_true, decode, h]
  rfl

/-- A code other than success refuses a command, whatever data comes with it. -/
theorem outcome_of_ne_zero (c : Command) {response : Response} (h : response.code ≠ 0x00) :
    c.outcome (.ok response) = .error (.refused c.name (.ofByte response.code)) := by
  have hcode : (CompletionCode.ofByte response.code).isSuccess = false := by
    rw [CompletionCode.isSuccess_ofByte]
    exact beq_eq_false_iff_ne.mpr h
  simp only [outcome, Except.bind, parse, hcode]
  rfl

/-- A cancelled reservation refuses a command, whatever data comes with it. -/
theorem outcome_of_cancelled (c : Command) (data : List UInt8) :
    c.outcome (.ok ⟨0xC5, data⟩) = .error (.refused c.name .reservationCancelled) := rfl

/-- Performing a command is one exchange, and its reply decides the result. -/
theorem run_perform (c : Command) (t : Transport σ) (s : σ) :
    let answered := (t.send c.request).run s
    (c.perform.run t s).result = c.outcome answered.1 ∧
      (c.perform.run t s).acts = [.exchange ⟨c.request, answered.1⟩] := by
  simp only [perform, Dialogue.run, outcome]
  cases ((t.send c.request).run s).1 with
  | error failure => exact ⟨rfl, rfl⟩
  | ok response => exact ⟨rfl, rfl⟩

/-- A command waits nowhere. -/
theorem unpaused_perform (c : Command) : c.perform.Unpaused := by
  intro reply
  cases reply <;> trivial

end Command

/-- An exchange that performed a command, with a result. -/
structure Exchange.Performs (x : Exchange) (c : Command) (result : Except Failure c.Output) :
    Prop where
  request_eq : x.request = c.request
  outcome_eq : c.outcome x.reply = result

/-- A command has one result. -/
theorem Exchange.Performs.unique {x : Exchange} {c : Command}
    {result result' : Except Failure c.Output} (h : x.Performs c result)
    (h' : x.Performs c result') : result = result' :=
  h.outcome_eq.symm.trans h'.outcome_eq

/-- A command succeeds only on the code for success, with data that it can read. -/
theorem Exchange.Performs.exists_read? {x : Exchange} {c : Command} {output : c.Output}
    (h : x.Performs c (.ok output)) :
    ∃ data rest, x.reply = .ok ⟨0x00, data⟩ ∧ c.read? data = some (output, rest) := by
  obtain ⟨request, reply⟩ := x
  have houtcome := h.outcome_eq
  cases reply with
  | error failure => contradiction
  | ok response =>
      obtain ⟨code, data⟩ := response
      by_cases hcode : code = 0x00
      · subst hcode
        cases hread : c.read? data with
        | none =>
            rw [Command.outcome_of_read?_eq_none hread] at houtcome
            contradiction
        | some found =>
            rw [Command.outcome_of_read? hread] at houtcome
            cases houtcome
            exact ⟨data, found.2, rfl, hread⟩
      · rw [Command.outcome_of_ne_zero _ hcode] at houtcome
        contradiction

/-- Going on after a command is one exchange and then what its result leads to. -/
theorem Command.exists_performs_handle_acts {σ β : Type} (c : Command)
    (k : Except Failure c.Output → Dialogue β) (t : Transport σ) (s : σ) :
    ∃ x result s', x.Performs c result ∧
      ((c.perform.handle k).run t s).acts = .exchange x :: ((k result).run t s').acts ∧
      ((c.perform.handle k).run t s).result = ((k result).run t s').result := by
  obtain ⟨hresult, hacts⟩ := c.run_perform t s
  refine ⟨⟨c.request, ((t.send c.request).run s).1⟩, (c.perform.run t s).result,
    (c.perform.run t s).state, ⟨rfl, hresult.symm⟩, ?_, ?_⟩
  · rw [Dialogue.run_handle_eq, Dialogue.Run.acts_preceded, ← Dialogue.Run.acts, hacts,
      List.singleton_append]
  · rw [Dialogue.run_handle_eq, Dialogue.Run.result_preceded]

/-- The same of the exchanges alone. -/
theorem Command.exists_performs_handle {σ β : Type} (c : Command)
    (k : Except Failure c.Output → Dialogue β) (t : Transport σ) (s : σ) :
    ∃ x result s', x.Performs c result ∧
      ((c.perform.handle k).run t s).exchanges = x :: ((k result).run t s').exchanges ∧
      ((c.perform.handle k).run t s).result = ((k result).run t s').result := by
  obtain ⟨x, result, s', hx, hacts, hresult⟩ := c.exists_performs_handle_acts k t s
  refine ⟨x, result, s', hx, ?_, hresult⟩
  rw [Dialogue.Run.exchanges_eq, hacts, Act.exchanges_cons_exchange, ← Dialogue.Run.exchanges_eq]

/-- Going on after a value: the command fails and nothing follows, or what its value
leads to follows. -/
theorem Command.exists_performs_andThen {σ β : Type} (c : Command) (f : c.Output → Dialogue β)
    (t : Transport σ) (s : σ) :
    (∃ x failure, x.Performs c (.error failure) ∧
      ((c.perform.andThen f).run t s).exchanges = [x] ∧
      ((c.perform.andThen f).run t s).result = .error failure) ∨
    ∃ x value s', x.Performs c (.ok value) ∧
      ((c.perform.andThen f).run t s).exchanges = x :: ((f value).run t s').exchanges ∧
      ((c.perform.andThen f).run t s).result = ((f value).run t s').result := by
  obtain ⟨x, result, s', hx, hxs, hresult⟩ := c.exists_performs_handle _ t s
  rw [Dialogue.andThen, hxs, hresult]
  cases result with
  | error failure => exact .inl ⟨x, failure, hx, rfl, rfl⟩
  | ok value => exact .inr ⟨x, value, s', hx, rfl, rfl⟩

end Baseboard
