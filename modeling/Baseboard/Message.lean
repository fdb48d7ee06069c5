import Baseboard.Address
import Baseboard.Text.Hex

/-!
# Baseboard.Message

The two halves of an exchange with the controller.  A request is an address, a
command number and data; a response is a completion code and data.
-/

namespace Baseboard

/-- A request as it is handed to the transport. -/
structure Request where
  address : Address
  command : UInt8
  data : List UInt8
  deriving DecidableEq, Repr

/-- The bytes of a request. -/
def Request.bytes (r : Request) : List UInt8 := r.address.byte :: r.command :: r.data

/-- A response as the transport returns it; its code is not yet looked at. -/
structure Response where
  code : UInt8
  data : List UInt8
  deriving DecidableEq, Repr

namespace Response

/-- The code and the data of a payload; an empty payload holds no response. -/
def ofPayload? : List UInt8 → Option Response
  | [] => none
  | code :: data => some ⟨code, data⟩

/-- A one-line summary that shows how much data there is and not the data. -/
def summary (r : Response) : String :=
  "RawResponse \x7b completion_code: " ++ hexByte r.code ++
    ", data_len: " ++ toString r.data.length ++ " \x7d"

end Response

end Baseboard
