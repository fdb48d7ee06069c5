import Baseboard.Dump
import Baseboard.Transport

/-!
# Baseboard.Dialogue

A protocol with a controller, apart from any transport.  A dialogue is a tree:
it ends with a result, or it sends a request and goes on with each reply that
may come, or it waits, or it notes a dump.  Every branch of the tree is finite,
so a dialogue ends whatever the controller answers.

`Dialogue.run` holds a dialogue over a transport and tells its result, what
happened in order, and the state in which it leaves the transport.
-/

namespace Baseboard

/-- A protocol that ends with a value or with a failure. -/
inductive Dialogue (α : Type) where
  | done (result : Except Failure α)
  | send (request : Request) (next : Except Failure Response → Dialogue α)
  /-- Wait for some milliseconds. -/
  | pause (milliseconds : Nat) (next : Dialogue α)
  | note (dump : Dump) (next : Dialogue α)

namespace Dialogue

variable {σ α β γ : Type}

/-- The dialogue that has failed. -/
def fail (failure : Failure) : Dialogue α := done (.error failure)

/-- Go on with the result of a dialogue, be it a value or a failure. -/
def handle : Dialogue α → (Except Failure α → Dialogue β) → Dialogue β
  | done result, k => k result
  | send request next, k => send request fun reply => (next reply).handle k
  | pause milliseconds next, k => pause milliseconds (next.handle k)
  | note dump next, k => note dump (next.handle k)

/-- Go on with the value of a dialogue; a failure ends both. -/
def andThen (d : Dialogue α) (f : α → Dialogue β) : Dialogue β :=
  d.handle fun
    | .ok a => f a
    | .error failure => fail failure

instance : Monad Dialogue where
  pure a := done (.ok a)
  bind := andThen

/-- The dialogue whose value is the result of `d`, which then cannot fail. -/
def attempt (d : Dialogue α) : Dialogue (Except Failure α) := d.handle fun r => pure r

/-! ## Holding a dialogue -/

/-- What happens while a dialogue is held. -/
inductive Event where
  | exchange (request : Request) (reply : Except Failure Response)
  | pause (milliseconds : Nat)
  | note (dump : Dump)

/-- How a dialogue went. -/
structure Run (σ α : Type) where
  result : Except Failure α
  /-- What happened, in order. -/
  events : List Event
  /-- The state in which the transport is left. -/
  state : σ

/-- A run that something happened before. -/
def Run.after (event : Event) (r : Run σ α) : Run σ α :=
  { r with events := event :: r.events }

/-- Hold a dialogue over a transport in a given state. -/
def run (t : Transport σ) : Dialogue α → σ → Run σ α
  | done result, s => ⟨result, [], s⟩
  | send request next, s =>
    let answered := (t.send request).run s
    ((next answered.1).run t answered.2).after (.exchange request answered.1)
  | pause milliseconds next, s => (next.run t s).after (.pause milliseconds)
  | note dump next, s => (next.run t s).after (.note dump)

/-- The pauses among the events. -/
def pauses (events : List Event) : List Nat :=
  events.filterMap fun
    | .pause milliseconds => some milliseconds
    | _ => none

/-- The dumps among the events. -/
def dumps (events : List Event) : List Dump :=
  events.filterMap fun
    | .note dump => some dump
    | _ => none

/-- The requests among the events. -/
def requests (events : List Event) : List Request :=
  events.filterMap fun
    | .exchange request _ => some request
    | _ => none

/-! ## Laws -/

theorem handle_handle (d : Dialogue α) (f : Except Failure α → Dialogue β)
    (g : Except Failure β → Dialogue γ) :
    (d.handle f).handle g = d.handle fun r => (f r).handle g := by
  induction d with
  | done => rfl
  | send request next ih => simp only [handle, ih]
  | pause ms next ih => simp only [handle, ih]
  | note dump next ih => simp only [handle, ih]

/-- Going on with nothing more is no change. -/
theorem handle_done (d : Dialogue α) : d.handle done = d := by
  induction d with
  | done => rfl
  | send request next ih => simp only [handle, ih]
  | pause ms next ih => simp only [handle, ih]
  | note dump next ih => simp only [handle, ih]

theorem andThen_andThen (d : Dialogue α) (f : α → Dialogue β) (g : β → Dialogue γ) :
    (d.andThen f).andThen g = d.andThen fun a => (f a).andThen g := by
  unfold andThen
  rw [handle_handle]
  congr 1
  funext r
  cases r <;> rfl

instance : LawfulMonad Dialogue := LawfulMonad.mk' Dialogue
  (fun d => by
    refine Eq.trans ?_ (handle_done d)
    show d.handle _ = d.handle done
    congr 1
    funext r
    cases r <;> rfl)
  (fun _ _ => rfl)
  andThen_andThen

/-- Running on is running the first part and then, from where it left the
transport, what its result leads to. -/
theorem run_handle (t : Transport σ) (d : Dialogue α) (k : Except Failure α → Dialogue β)
    (s : σ) :
    (d.handle k).run t s =
      let first := d.run t s
      let rest := (k first.result).run t first.state
      ⟨rest.result, first.events ++ rest.events, rest.state⟩ := by
  induction d generalizing s with
  | done => rfl
  | send request next ih => simp only [handle, run, ih, Run.after, List.cons_append]
  | pause ms next ih => simp only [handle, run, ih, Run.after, List.cons_append]
  | note dump next ih => simp only [handle, run, ih, Run.after, List.cons_append]

end Dialogue

end Baseboard
