import Baseboard.Command.Reply
import Baseboard.Dialogue

/-!
# Baseboard.Command.Perform

A command as a dialogue: one request and what its response says, with a dump of
the data on the way out and on the way in.
-/

namespace Baseboard.Command

/-- Send a command and read its response. -/
def perform (c : Command) : Dialogue c.Output :=
  .note ⟨.request, c.name, c.data⟩ <| .send c.request fun
    | .error failure => .fail failure
    | .ok response =>
      .note ⟨.response, c.name, response.data⟩ <| .done (c.parse response)

/-- Perform a command again, up to `retries` more times, while its request goes
unanswered. -/
def performWithRetries (c : Command) (retries : Nat) : Dialogue c.Output :=
  (untilAnswered retries fun _ => c.perform.attempt).andThen .done

end Baseboard.Command
