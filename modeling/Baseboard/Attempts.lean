import Baseboard.Failure

/-!
# Baseboard.Attempts

Repeating an operation whose request went unanswered.  Only a timeout is worth
another attempt: after any other outcome the controller has already seen the
request.
-/

namespace Baseboard

variable {m : Type → Type} [Monad m] {α : Type}

/-- The attempts from number `attempt` on, with `left` more after it. -/
def attemptsFrom (op : Nat → m (Except Failure α)) (attempt : Nat) :
    Nat → m (Except Failure α)
  | 0 => op attempt
  | left + 1 => do
    match ← op attempt with
    | .error .timeout => attemptsFrom op (attempt + 1) left
    | outcome => pure outcome

/-- The first outcome of `op` that is not a timeout, or the timeout of the last
attempt when `retries` extra attempts have gone unanswered too.  Attempts are
numbered from 0. -/
def untilAnswered (retries : Nat) (op : Nat → m (Except Failure α)) : m (Except Failure α) :=
  attemptsFrom op 0 retries

end Baseboard
