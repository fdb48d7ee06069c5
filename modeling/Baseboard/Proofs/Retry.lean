import Baseboard.Fru.Retrieval
import Baseboard.Proofs.Attempts
import Baseboard.Proofs.Exchange
import Baseboard.Sel.Clearing
import Baseboard.Sel.Reading
import Mathlib.Data.Stream.Init

/-!
# Baseboard.Proofs.Retry

Retrying, seen from both sides.  A session is taken as a stream of outcomes, one for
each request that is sent; some of them are timeouts.  Seen through retries the
stream is shorter: `collapse` skips the timeouts after which the request is sent
again.

Main statement: a protocol over a session that retries goes as it would go over the
bare session with the collapsed stream, and each of its requests is sent as often as
it uses up outcomes (`Dialogue.transparent`, and `retrying_transparent` for the
protocols of this library).
-/

namespace Baseboard

/-! ## Streams of outcomes -/

/-- A session as a stream: the outcomes to come, one for each request, and the requests
so far. -/
structure Feed where
  outcomes : Stream' (Except Failure Response)
  asked : List Request

namespace Feed

/-- A session of which nothing was asked yet. -/
def start (outcomes : Stream' (Except Failure Response)) : Feed := ⟨outcomes, []⟩

/-- The transport that takes each outcome from the stream, whatever is asked. -/
def transport : Transport Feed where
  send request := fun feed =>
    (feed.outcomes.head, ⟨feed.outcomes.tail, feed.asked ++ [request]⟩)
  signal _ := pure (.ok ())

/-- Whether a request went unanswered. -/
def isTimeout : Except Failure Response → Bool
  | .ok _ => false
  | .error failure => failure.isTimeout

theorem isTimeout_eq_false {outcome : Except Failure Response} (h : outcome ≠ .error .timeout) :
    isTimeout outcome = false := by
  cases outcome with
  | ok response => rfl
  | error failure =>
      cases failure with
      | timeout => exact absurd rfl h
      | _ => rfl

variable {outcomes : Stream' (Except Failure Response)}

/-- How many outcomes are skipped: the timeouts in front, but at most `retries`. -/
def skipped (retries : Nat) (outcomes : Stream' (Except Failure Response)) : Nat :=
  ((outcomes.take retries).takeWhile isTimeout).length

/-- A stream as it looks through retries: again and again the outcome behind those that
are skipped. -/
def collapse (retries : Nat) :
    Stream' (Except Failure Response) → Stream' (Except Failure Response) :=
  Stream'.corec (fun s => s.get (skipped retries s)) (fun s => s.drop (skipped retries s + 1))

/-- How many outcomes the requests use up, one after the other: those that are skipped
and the one behind them. -/
def usage (retries : Nat) : Stream' (Except Failure Response) → Stream' Nat :=
  Stream'.corec (fun s => skipped retries s + 1) (fun s => s.drop (skipped retries s + 1))

/-- Requests, each sent as often as told. -/
def repeated : Stream' Nat → List Request → List Request
  | _, [] => []
  | counts, request :: rest =>
    List.replicate counts.head request ++ repeated counts.tail rest

theorem skipped_le (retries : Nat) (outcomes : Stream' (Except Failure Response)) :
    skipped retries outcomes ≤ retries := by
  have hle := (List.takeWhile_prefix (l := outcomes.take retries) isTimeout).length_le
  rwa [Stream'.length_take] at hle

theorem skipped_of_answered (retries : Nat) (h : isTimeout outcomes.head = false) :
    skipped retries outcomes = 0 := by
  cases retries with
  | zero => rfl
  | succ n => rw [skipped, Stream'.take_succ, List.takeWhile_cons_of_neg (by simp [h])]; rfl

theorem skipped_succ_of_timeout (retries : Nat) (h : isTimeout outcomes.head = true) :
    skipped (retries + 1) outcomes = skipped retries outcomes.tail + 1 := by
  rw [skipped, Stream'.take_succ, List.takeWhile_cons_of_pos h, List.length_cons, skipped]

@[simp] theorem head_collapse (retries : Nat) (outcomes : Stream' (Except Failure Response)) :
    (collapse retries outcomes).head = outcomes.get (skipped retries outcomes) := rfl

@[simp] theorem tail_collapse (retries : Nat) (outcomes : Stream' (Except Failure Response)) :
    (collapse retries outcomes).tail =
      collapse retries (outcomes.drop (skipped retries outcomes + 1)) := by
  rw [collapse, Stream'.corec_eq, Stream'.tail_cons]

@[simp] theorem head_usage (retries : Nat) (outcomes : Stream' (Except Failure Response)) :
    (usage retries outcomes).head = skipped retries outcomes + 1 := rfl

@[simp] theorem tail_usage (retries : Nat) (outcomes : Stream' (Except Failure Response)) :
    (usage retries outcomes).tail =
      usage retries (outcomes.drop (skipped retries outcomes + 1)) := by
  rw [usage, Stream'.corec_eq, Stream'.tail_cons]

theorem repeated_usage_cons (retries : Nat) (outcomes : Stream' (Except Failure Response))
    (request : Request) (rest : List Request) :
    repeated (usage retries outcomes) (request :: rest) =
      List.replicate (skipped retries outcomes + 1) request ++
        repeated (usage retries (outcomes.drop (skipped retries outcomes + 1))) rest := by
  rw [repeated, head_usage, tail_usage]

/-- Each outcome that is used up stands for a request that is sent. -/
theorem drop_length_repeated_usage_cons (retries : Nat)
    (outcomes : Stream' (Except Failure Response)) (request : Request) (rest : List Request) :
    outcomes.drop (repeated (usage retries outcomes) (request :: rest)).length =
      (outcomes.drop (skipped retries outcomes + 1)).drop
        (repeated (usage retries (outcomes.drop (skipped retries outcomes + 1))) rest).length := by
  rw [repeated_usage_cons, List.length_append, List.length_replicate, Stream'.drop_drop]

/-- Every request uses up an outcome, and no more than it has attempts. -/
theorem usage_bounded (retries : Nat) (outcomes : Stream' (Except Failure Response)) (n : Nat) :
    1 ≤ (usage retries outcomes).get n ∧ (usage retries outcomes).get n ≤ retries + 1 := by
  have hget : (usage retries outcomes).get n = skipped retries _ + 1 := rfl
  have hle := skipped_le retries
  rw [hget]
  exact ⟨Nat.le_add_left 1 _, Nat.succ_le_succ (hle _)⟩

/-- With one retry a timeout before an answer is skipped, and of two in a row the
second one stays. -/
example (response : Response) (rest : Stream' (Except Failure Response)) :
    (collapse 1
        ([.error .timeout, .ok response, .error .timeout, .error .timeout] ++ₛ rest)).take 2 =
      [.ok response, .error .timeout] := rfl

/-! ## One request -/

theorem run_send (request : Request) (feed : Feed) :
    (transport.send request).run feed =
      (feed.outcomes.head, ⟨feed.outcomes.tail, feed.asked ++ [request]⟩) := rfl

/-- The attempts at one request use up the timeouts that are skipped and the outcome
behind them. -/
theorem run_attemptsFrom (request : Request) (retries attempt : Nat)
    (outcomes : Stream' (Except Failure Response)) (asked : List Request) :
    (attemptsFrom (fun _ => transport.send request) attempt retries).run ⟨outcomes, asked⟩ =
      (outcomes.get (skipped retries outcomes),
        ⟨outcomes.drop (skipped retries outcomes + 1),
          asked ++ List.replicate (skipped retries outcomes + 1) request⟩) := by
  induction retries generalizing attempt outcomes asked with
  | zero => rfl
  | succ n ih =>
      by_cases htimeout : ((transport.send request).run ⟨outcomes, asked⟩).1 = .error .timeout
      · have hskipped : skipped (n + 1) outcomes = skipped n outcomes.tail + 1 :=
          skipped_succ_of_timeout n (congrArg isTimeout htimeout)
        rw [attemptsFrom_of_timeout attempt n htimeout, run_send, ih, hskipped,
          List.append_assoc, List.singleton_append, ← List.replicate_succ]
        rfl
      · have hanswered : isTimeout outcomes.head = false := isTimeout_eq_false htimeout
        rw [attemptsFrom_of_answered attempt n htimeout, skipped_of_answered (n + 1) hanswered]
        rfl

/-- A request that is sent over a session that retries. -/
theorem run_retrying_send (request : Request) (retries : Nat)
    (outcomes : Stream' (Except Failure Response)) (asked : List Request) :
    ((transport.retrying retries).send request).run ⟨outcomes, asked⟩ =
      (outcomes.get (skipped retries outcomes),
        ⟨outcomes.drop (skipped retries outcomes + 1),
          asked ++ List.replicate (skipped retries outcomes + 1) request⟩) :=
  run_attemptsFrom request retries 0 outcomes asked

end Feed

/-! ## Whole dialogues -/

namespace Dialogue

open Feed

variable {α : Type}

/-- Over the bare stream each request is asked once. -/
theorem asked_run (d : Dialogue α) (feed : Feed) :
    (d.run transport feed).state.asked = feed.asked ++ requests (d.run transport feed).events := by
  induction d generalizing feed with
  | done => exact (List.append_nil _).symm
  | send request next ih =>
      simp only [run, run_send, Run.after, ih]
      rw [List.append_assoc]
      rfl
  | pause ms next ih => exact ih feed
  | note dump next ih => exact ih feed

/-- Whether a protocol goes over a session that retries as it would over the bare session
with the collapsed stream: with the same result, the same events, its pauses among them,
and the same outcomes left, while each request that it makes is sent once for every
outcome that it uses up. -/
def Transparent (retries : Nat) (d : Dialogue α) : Prop :=
  ∀ outcomes : Stream' (Except Failure Response),
    let bare := d.run transport (.start (collapse retries outcomes))
    let retried := d.run (transport.retrying retries) (.start outcomes)
    retried.result = bare.result ∧ retried.events = bare.events ∧
      retried.state.asked = repeated (usage retries outcomes) bare.state.asked ∧
      retried.state.outcomes = outcomes.drop retried.state.asked.length ∧
      bare.state.outcomes = collapse retries retried.state.outcomes

theorem run_retrying (retries : Nat) (d : Dialogue α)
    (outcomes : Stream' (Except Failure Response)) (asked asked' : List Request) :
    let bare := d.run transport ⟨collapse retries outcomes, asked'⟩
    let retried := d.run (transport.retrying retries) ⟨outcomes, asked⟩
    let sent := repeated (usage retries outcomes) (requests bare.events)
    retried.result = bare.result ∧ retried.events = bare.events ∧
      retried.state.asked = asked ++ sent ∧
      retried.state.outcomes = outcomes.drop sent.length ∧
      bare.state.outcomes = collapse retries retried.state.outcomes := by
  induction d generalizing outcomes asked asked' with
  | done => exact ⟨rfl, rfl, (List.append_nil _).symm, rfl, rfl⟩
  | pause ms next ih =>
      obtain ⟨hresult, hevents, hrest⟩ := ih outcomes asked asked'
      exact ⟨hresult, congrArg (Event.pause ms :: ·) hevents, hrest⟩
  | note dump next ih =>
      obtain ⟨hresult, hevents, hrest⟩ := ih outcomes asked asked'
      exact ⟨hresult, congrArg (Event.note dump :: ·) hevents, hrest⟩
  | send request next ih =>
      let count := skipped retries outcomes + 1
      let reply := outcomes.get (skipped retries outcomes)
      obtain ⟨hresult, hevents, hasked, houtcomes, hbare⟩ := ih reply (outcomes.drop count)
        (asked ++ List.replicate count request) (asked' ++ [request])
      have hrun : (send request next).run transport ⟨collapse retries outcomes, asked'⟩ =
          ((next reply).run transport
            ⟨collapse retries (outcomes.drop count), asked' ++ [request]⟩).after
              (.exchange request reply) := by
        rw [run, run_send, head_collapse, tail_collapse]
      have hrun' : (send request next).run (transport.retrying retries) ⟨outcomes, asked⟩ =
          ((next reply).run (transport.retrying retries)
            ⟨outcomes.drop count, asked ++ List.replicate count request⟩).after
              (.exchange request reply) := by
        rw [run, run_retrying_send]
      rw [hrun, hrun']
      refine ⟨hresult, congrArg (Event.exchange request reply :: ·) hevents, ?_, ?_, hbare⟩
      · rw [List.append_assoc, ← repeated_usage_cons] at hasked
        exact hasked
      · rw [← drop_length_repeated_usage_cons retries outcomes request] at houtcomes
        exact houtcomes

/-- Every protocol is transparent to retries. -/
theorem transparent (retries : Nat) (d : Dialogue α) : Transparent retries d := by
  intro outcomes
  obtain ⟨hresult, hevents, hasked, houtcomes, hbare⟩ := run_retrying retries d outcomes [] []
  have hrequests : (d.run transport (.start (collapse retries outcomes))).state.asked =
      requests (d.run transport (.start (collapse retries outcomes))).events :=
    asked_run d (.start (collapse retries outcomes))
  refine ⟨hresult, hevents, ?_, ?_, hbare⟩
  · rw [hrequests]
    exact hasked
  · rw [start, hasked]
    exact houtcomes

end Dialogue

/-! ## The protocols -/

open Feed Dialogue

/-- Retries are transparent to every protocol with a controller: to a single command,
to the walk over the log from anywhere, to a window of the log, to the reading of an
inventory and to the erasure of the log.  Each request is sent at least once and at
most `retries + 1` times. -/
theorem retrying_transparent (retries : Nat) :
    (∀ c : Command, Transparent retries c.perform) ∧
      (∀ w : Sel.Walk, Transparent retries w.finish) ∧
      (∀ offset count maxRecoveries : Nat,
        Transparent retries (Sel.readWindowOf offset count maxRecoveries)) ∧
      (∀ device lun chunk : UInt8, Transparent retries (Fru.readDevice device lun chunk)) ∧
      (∀ interval maxPolls : Nat, Transparent retries (Sel.clearLog interval maxPolls)) ∧
      ∀ outcomes n, 1 ≤ (usage retries outcomes).get n ∧
        (usage retries outcomes).get n ≤ retries + 1 :=
  ⟨fun c => transparent retries c.perform,
    fun w => transparent retries w.finish,
    fun offset count maxRecoveries =>
      transparent retries (Sel.readWindowOf offset count maxRecoveries),
    fun device lun chunk => transparent retries (Fru.readDevice device lun chunk),
    fun interval maxPolls => transparent retries (Sel.clearLog interval maxPolls),
    usage_bounded retries⟩

end Baseboard
