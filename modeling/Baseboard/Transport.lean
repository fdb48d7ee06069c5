import Baseboard.Attempts
import Baseboard.Message

/-!
# Baseboard.Transport

The way to a controller.  A transport carries one request at a time and returns
the response or tells why there is none; it also opens and closes the session
and checks that the controller is in reach.  What a transport remembers between
two requests is its state.

A transport that reports timeouts can be wrapped in one that sends each request
again (`Transport.retrying`).
-/

namespace Baseboard

/-- What a transport is asked for besides carrying requests. -/
inductive Signal where
  | connect
  | disconnect
  | ping
  deriving DecidableEq, Repr

/-- A transport with states in `σ`. -/
structure Transport (σ : Type) where
  send : Request → StateM σ (Except Failure Response)
  signal : Signal → StateM σ (Except Failure Unit)

/-- The transport that sends a request again, unchanged, after each timeout, up
to `retries` more times.  A ping is repeated alike; connecting and disconnecting
are not. -/
def Transport.retrying {σ : Type} (t : Transport σ) (retries : Nat) : Transport σ where
  send request := untilAnswered retries fun _ => t.send request
  signal
    | .ping => untilAnswered retries fun _ => t.signal .ping
    | other => t.signal other

end Baseboard
