import Baseboard.Proofs.Command.Reply
import Baseboard.Proofs.Retry

/-!
# Baseboard.Proofs.Command.Attempts

Two ways of trying a command again.  The command is performed again as a whole, encoded and
read each time; or it is performed once, over a transport that sends its request again.

The first looks at what a reply means for the command, the second at the reply alone.  They
would part only if some response could mean a timeout, and none does
(`outcome_eq_timeout_iff`).

Main statement: both ways come to the same, over any transport and from any state of it
(`performWithRetries_eq_retrying`).
-/

namespace Baseboard

open Dialogue Feed

variable {σ α : Type}

/-! ## Dialogues held again -/

namespace Dialogue

/-- An attempt has the result of the dialogue as its value. -/
theorem run_attempt (t : Transport σ) (d : Dialogue α) (s : σ) :
    d.attempt.run t s = ⟨.ok (d.run t s).result, (d.run t s).events, (d.run t s).state⟩ := by
  rw [attempt, run_handle_eq, run_pure, Run.preceded, List.append_nil]

/-- After a timeout the dialogue is held again, from where it left the transport. -/
theorem run_attemptsFrom_of_timeout {t : Transport σ} {d : Dialogue α} {s : σ}
    (attempt left : Nat) (h : (d.run t s).result = .error .timeout) :
    (attemptsFrom (fun _ => d.attempt) attempt (left + 1)).run t s =
      ((attemptsFrom (fun _ => d.attempt) (attempt + 1) left).run t (d.run t s).state).preceded
        (d.run t s).events := by
  have hattempt : (d.attempt.run t s).result = .ok (.error .timeout) := by rw [run_attempt, h]
  refine (run_andThen_of_ok _ hattempt).trans ?_
  rw [run_attempt]

/-- Any other result is the end of it. -/
theorem run_attemptsFrom_of_answered {t : Transport σ} {d : Dialogue α} {s : σ}
    (attempt left : Nat) (h : (d.run t s).result ≠ .error .timeout) :
    (attemptsFrom (fun _ => d.attempt) attempt (left + 1)).run t s = d.attempt.run t s := by
  have hattempt : (d.attempt.run t s).result = .ok (d.run t s).result := by rw [run_attempt]
  refine (run_andThen_of_ok _ hattempt).trans ?_
  split
  · next htimeout => exact absurd htimeout h
  · rw [run_pure, run_attempt, Run.preceded, List.append_nil]

end Dialogue

/-! ## Commands performed again -/

namespace Command

/-- A command leaves the transport where its request left it. -/
theorem state_run_perform (c : Command) (t : Transport σ) (s : σ) :
    (c.perform.run t s).state = ((t.send c.request).run s).2 := by
  simp only [perform, Dialogue.run]
  cases ((t.send c.request).run s).1 <;> rfl

/-- A command times out when its request goes unanswered, and not by any response. -/
theorem outcome_eq_timeout_iff {c : Command} {reply : Except Failure Response} :
    c.outcome reply = .error .timeout ↔ reply = .error .timeout := by
  cases reply with
  | error failure => exact ⟨fun h => congrArg _ (Except.error.inj h), fun h => by rw [h]; rfl⟩
  | ok response =>
      refine ⟨fun h => ?_, nofun⟩
      have hanswered : Failure.timeout.isTimeout = false :=
        (c.verdict_parse response).isTimeout_eq_false h
      contradiction

/-- One attempt at a command is one request, and the reply to it decides the result. -/
theorem run_attempt_perform (c : Command) (t : Transport σ) (s : σ) :
    let sent := (t.send c.request).run s
    (c.perform.attempt.run t s).result = .ok (c.outcome sent.1) ∧
      (c.perform.attempt.run t s).state = sent.2 := by
  rw [run_attempt]
  exact ⟨congrArg Except.ok (c.run_perform t s).1, c.state_run_perform t s⟩

/-- Attempts at a command go as the attempts at its request: they end in the same state, and
the last reply decides the result. -/
theorem run_attemptsFrom_perform (c : Command) (t : Transport σ) (retries attempt : Nat) (s : σ) :
    let sent := (attemptsFrom (fun _ => t.send c.request) attempt retries).run s
    let run := (attemptsFrom (fun _ => c.perform.attempt) attempt retries).run t s
    run.result = .ok (c.outcome sent.1) ∧ run.state = sent.2 := by
  induction retries generalizing attempt s with
  | zero => exact c.run_attempt_perform t s
  | succ n ih =>
      have hresult : (c.perform.run t s).result = c.outcome ((t.send c.request).run s).1 :=
        (c.run_perform t s).1
      by_cases htimeout : ((t.send c.request).run s).1 = .error .timeout
      · have hperform : (c.perform.run t s).result = .error .timeout :=
          hresult.trans (outcome_eq_timeout_iff.mpr htimeout)
        rw [attemptsFrom_of_timeout attempt n htimeout,
          run_attemptsFrom_of_timeout attempt n hperform, c.state_run_perform t s]
        exact ih (attempt + 1) _
      · have hperform : (c.perform.run t s).result ≠ .error .timeout := fun h =>
          htimeout (outcome_eq_timeout_iff.mp (hresult.symm.trans h))
        rw [attemptsFrom_of_answered attempt n htimeout,
          run_attemptsFrom_of_answered attempt n hperform]
        exact c.run_attempt_perform t s

/-- A command that is performed again comes to what it comes to over a transport that sends
again. -/
theorem run_performWithRetries (c : Command) (retries : Nat) (t : Transport σ) (s : σ) :
    let again := (c.performWithRetries retries).run t s
    let once := c.perform.run (t.retrying retries) s
    again.result = once.result ∧ again.state = once.state := by
  intro again once
  let sent := (attemptsFrom (fun _ => t.send c.request) 0 retries).run s
  let attempts := (attemptsFrom (fun _ => c.perform.attempt) 0 retries).run t s
  obtain ⟨hresult, hstate⟩ := c.run_attemptsFrom_perform t retries 0 s
  have hagain : again = ⟨attempts.result.bind id, attempts.events, attempts.state⟩ :=
    run_andThen_done t (attemptsFrom (fun _ => c.perform.attempt) 0 retries) id s
  refine ⟨?_, ?_⟩
  · calc
      again.result = attempts.result.bind id := congrArg Run.result hagain
      _ = c.outcome sent.1 := congrArg (Except.bind · id) hresult
      _ = once.result := (c.run_perform (t.retrying retries) s).1.symm
  · calc
      again.state = attempts.state := congrArg Run.state hagain
      _ = sent.2 := hstate
      _ = once.state := (c.state_run_perform (t.retrying retries) s).symm

/-! ## Over a stream of outcomes -/

/-- A run that sends the request of a command, unchanged, until it is answered: once for each
timeout that is skipped, and once for the outcome behind these, which decides the result. -/
structure SentUntilAnswered (c : Command) (retries : Nat)
    (outcomes : Stream' (Except Failure Response)) (r : Run Feed c.Output) : Prop where
  result_eq : r.result = c.outcome (outcomes.get (skipped retries outcomes))
  asked_eq : r.state.asked = List.replicate (skipped retries outcomes + 1) c.request
  outcomes_eq : r.state.outcomes = outcomes.drop (skipped retries outcomes + 1)

theorem sentUntilAnswered_retrying (c : Command) (retries : Nat)
    (outcomes : Stream' (Except Failure Response)) :
    SentUntilAnswered c retries outcomes
      (c.perform.run (transport.retrying retries) (.start outcomes)) := by
  have hsent := run_retrying_send c.request retries outcomes []
  have hresult := (c.run_perform (transport.retrying retries) (.start outcomes)).1
  have hstate := c.state_run_perform (transport.retrying retries) (.start outcomes)
  rw [Feed.start, hsent] at hresult hstate
  exact ⟨hresult, congrArg Feed.asked hstate, congrArg Feed.outcomes hstate⟩

/-- To perform a command again after each timeout, and to perform it once while the transport
sends again, are the same: over every transport the result is the same, and so is the state
in which the transport is left.  Over a session that is a stream of outcomes both send the
request of the command once for each timeout that they skip and once more, and both leave the
outcomes after that. -/
theorem performWithRetries_eq_retrying (c : Command) (retries : Nat) :
    (∀ {σ : Type} (t : Transport σ) (s : σ),
      let again := (c.performWithRetries retries).run t s
      let once := c.perform.run (t.retrying retries) s
      again.result = once.result ∧ again.state = once.state) ∧
    ∀ outcomes : Stream' (Except Failure Response),
      SentUntilAnswered c retries outcomes
        ((c.performWithRetries retries).run transport (.start outcomes)) ∧
      SentUntilAnswered c retries outcomes
        (c.perform.run (transport.retrying retries) (.start outcomes)) := by
  refine ⟨fun t s => c.run_performWithRetries retries t s, fun outcomes => ?_⟩
  obtain ⟨hresult, hstate⟩ := c.run_performWithRetries retries transport (.start outcomes)
  have honce := c.sentUntilAnswered_retrying retries outcomes
  refine ⟨⟨?_, ?_, ?_⟩, honce⟩
  · rw [hresult, honce.result_eq]
  · rw [hstate, honce.asked_eq]
  · rw [hstate, honce.outcomes_eq]

end Command

end Baseboard
