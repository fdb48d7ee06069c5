import Baseboard.CompletionCode
import Baseboard.Settings
import Baseboard.Fru.Fault

/-!
# Baseboard.Failure

Why an operation on a controller failed.  A failed inventory read wraps the
failure of the read that ended it, and tells how far it had come.

The observers differ in whether they look through that wrapping: the kind and
the completion code are those of the wrapped failure, while only a timeout that
is not wrapped counts as one, because only the request that timed out may be
sent again.
-/

namespace Baseboard

/-- What the operating system said about a failed transfer. -/
inductive IoKind where
  | timedOut
  | wouldBlock
  | other
  deriving DecidableEq, Repr

/-- Why an operation failed. -/
inductive Failure where
  /-- The transport itself failed. -/
  | io (kind : IoKind) (message : String)
  /-- No response came in time. -/
  | timeout
  | settings (fault : SettingsFault)
  /-- A response was shorter than its command allows; `raw` is its data in
  hexadecimal. -/
  | malformed (command : String) (expected actual : Nat) (raw : String)
  /-- The controller completed a command with a code other than success. -/
  | refused (command : String) (code : CompletionCode)
  | fru (fault : Fru.Fault)
  /-- An inventory read ended at `offset`, with the bytes that it had collected. -/
  | fruRead (offset : UInt16) (collected : List UInt8) (source : Failure)
  /-- A log erasure was still in progress after its last look. -/
  | eraseTimeout (polls : Nat)
  /-- The controller left the protocol. -/
  | protocol (message : String)
  deriving DecidableEq, Repr

namespace Failure

/-- The classes that failures fall into. -/
inductive Kind where
  | io
  | timeout
  | config
  | malformedResponse
  | completionCode
  | fru
  | eraseTimeout
  | protocol
  deriving DecidableEq, Repr

/-- The label of a class, which stays the same from release to release. -/
def Kind.label : Kind → String
  | io => "io"
  | timeout => "timeout"
  | config => "config"
  | malformedResponse => "malformed_response"
  | completionCode => "completion_code"
  | fru => "fru"
  | eraseTimeout => "erase_timeout"
  | protocol => "protocol"

/-- The class of a failure; a wrapped failure gives its class to the wrapping. -/
def kind : Failure → Kind
  | io _ _ => .io
  | timeout => .timeout
  | settings _ => .config
  | malformed _ _ _ _ => .malformedResponse
  | refused _ _ => .completionCode
  | fru _ => .fru
  | fruRead _ _ source => source.kind
  | eraseTimeout _ => .eraseTimeout
  | protocol _ => .protocol

/-- The completion code that the controller answered with, also from inside a
wrapping. -/
def completionCode? : Failure → Option CompletionCode
  | refused _ code => some code
  | fruRead _ _ source => source.completionCode?
  | _ => none

/-- Whether a request went unanswered: the one failure after which it may be
sent again. -/
def isTimeout : Failure → Bool
  | timeout => true
  | _ => false

/-- Whether the controller has cancelled the log reservation. -/
def isReservationCancelled (f : Failure) : Bool :=
  f.completionCode? = some .reservationCancelled

/-- The wording of a failure. -/
def message : Failure → String
  | io _ message => s!"io error: {message}"
  | timeout => "timeout waiting for response"
  | settings fault => s!"invalid configuration: {fault.message}"
  | malformed command expected actual raw =>
    s!"invalid {command} response size: {actual}/{expected} [raw: {raw}]"
  | refused command code =>
    s!"{command}: completion code {hexByte code.byte} ({code.text})"
  | fru fault => s!"fru: {fault.message}"
  | fruRead offset collected source =>
    s!"fru read failed at offset {offset.toNat} after {collected.length} bytes: " ++
      source.message
  | eraseTimeout polls => s!"SEL erasure still in progress after {polls} polls"
  | protocol message => s!"protocol error: {message}"

/-- The wordings of the causes behind a failure, the nearest first. -/
def sources : Failure → List String
  | io _ message => [message]
  | settings fault => [fault.message]
  | fru fault => [fault.message]
  | fruRead _ _ source => source.message :: source.sources
  | _ => []

/-- The failure of a response to `command` that has `data` where at least
`expected` bytes are needed. -/
def tooShort (command : String) (expected : Nat) (data : List UInt8) : Failure :=
  malformed command expected data.length (hex data)

end Failure

end Baseboard
